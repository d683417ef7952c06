import BrightDoc.Proofs.Reader.Nesting
import BrightDoc.Proofs.Reader.Translation

/-! # Texts one after the other

A text that is read leaves the reader at the outermost list of statements. If no annotation waits there
and the comment lines at its end do not go on, what follows is read as if it stood alone: its tree comes
after the tree of the text above, and its places, errors and warnings are moved down. -/

namespace BrightDoc

variable {dialect : Dialect}

/-- The annotations that wait for a declaration where the lines end. -/
def pendingAfter (dialect : Dialect) (lines : List (List Char)) : List Annotation :=
  match (readFrom dialect 0 {} lines).result with
  | .ok s => s.pending
  | .error _ => []

/-- Whether comment lines at the end of the first text go on in the second one. -/
def commentGoesOn (first second : List (List Char)) : Bool :=
  first.getLast?.any Line.isComment && second.head?.any Line.isComment

namespace ReaderState

/-- A reader that can end is at the outermost list of statements. -/
theorem atStatements_of_finish {s : ReaderState} {statements : List Statement}
    (finished : s.finish = .ok statements) :
    s.focus = .statements ∧ s.frames = [] ∧ s.closeRun.items.reverse = statements := by
  obtain ⟨frames, items, focus, run, pending⟩ := s
  cases focus with
  | statements =>
    cases frames with
    | nil =>
      cases finished
      exact ⟨rfl, rfl, rfl⟩
    | cons frame outer => cases finished
  | functionBody f depth => cases finished
  | methodBody b m depth => cases finished
  | classBody b => cases finished
  | interfaceBody b => cases finished
  | enumBody b next => cases finished

/-- Where nothing is open and no annotation waits, the reader is as at the start of a text below the one
that has been read. -/
theorem closeRun_eq_below {s : ReaderState} (atStatements : s.focus = .statements)
    (outermost : s.frames = []) (free : s.pending = []) (n : Nat) :
    s.closeRun = ReaderState.below n s.closeRun.items {} := by
  obtain ⟨frames, items, focus, run, pending⟩ := s
  dsimp only at atStatements outermost free
  subst atStatements outermost free
  cases run <;> rfl

theorem closeRun_closeRun (s : ReaderState) : s.closeRun.closeRun = s.closeRun := by
  obtain ⟨frames, items, focus, run, pending⟩ := s
  cases run with
  | none => rfl
  | some c => cases focus <;> rfl

/-- A line that is no comment line ends the comment lines above it, whatever it is. -/
theorem step_closeRun {s : ReaderState} {l : SourceLine} (atStatements : s.focus = .statements)
    (notComment : Line.isComment l.text = false) : s.closeRun.step dialect l = s.step dialect l := by
  have closed : s.closeRun.focus = .statements := by
    obtain ⟨frames, items, focus, run, pending⟩ := s
    dsimp only at atStatements
    subst atStatements
    cases run <;> rfl
  simp only [step, atStatements, closed, gather, notComment, closeRun_closeRun, Bool.false_eq_true,
    if_false]

theorem finish_closeRun (s : ReaderState) : s.closeRun.finish = s.finish := by
  obtain ⟨frames, items, focus, run, pending⟩ := s
  cases run with
  | none => rfl
  | some c =>
    cases focus with
    | statements => cases frames <;> rfl
    | _ => rfl

/-- An empty line ends the comment lines above it, and changes nothing else. -/
theorem step_empty {s : ReaderState} (atStatements : s.focus = .statements) (index : Nat) :
    s.step dialect ⟨index, []⟩ = .ok s.closeRun := by
  obtain ⟨frames, items, focus, run, pending⟩ := s
  dsimp only at atStatements
  subst atStatements
  cases run <;> rfl

theorem closeRun_pending (s : ReaderState) : s.closeRun.pending = s.pending := by
  obtain ⟨frames, items, focus, run, pending⟩ := s
  cases run with
  | none => rfl
  | some c => cases focus <;> rfl

end ReaderState

/-- Making the comment lines just read a comment changes nothing, unless the next line is one more. -/
theorem readFrom_closeRun {s : ReaderState} (atStatements : s.focus = .statements)
    {lines : List (List Char)} (apart : s.run = none ∨ lines.head?.any Line.isComment = false)
    (index : Nat) :
    ((readFrom dialect index s.closeRun lines).andThen fun t => { result := t.finish }) =
      ((readFrom dialect index s lines).andThen fun t => { result := t.finish } :
        Outcome (List Statement)) := by
  rcases apart with free | apart
  · rw [show s.closeRun = s by simp only [ReaderState.closeRun, free]]
  cases lines with
  | nil => simp only [readFrom, Outcome.ok_andThen, ReaderState.finish_closeRun]
  | cons text more =>
    have notComment : Line.isComment text = false := by simpa using apart
    simp only [readFrom]
    rw [ReaderState.step_closeRun atStatements notComment]

/-- Comment lines that wait at the end of a text end with its last line. -/
theorem run_eq_none {lines : List (List Char)} {s : ReaderState}
    (read : (readFrom dialect 0 {} lines).result = .ok s)
    (noComment : lines.getLast?.any Line.isComment = false) : s.run = none := by
  cases found : s.run with
  | none => rfl
  | some c =>
    obtain ⟨placed, full, stop, -⟩ := (nested_of_read read).run c found
    obtain ⟨line, here, comment⟩ := full c.range.stop.line placed.valid.line_le (Nat.le_refl _)
    rw [List.getLast?_eq_getElem?, show lines.length - 1 = c.range.stop.line by omega, here] at noComment
    simp [comment] at noComment

/-- A text below one that is read, with nothing that carries over, is read as if it stood alone, and is
moved down. -/
theorem readLines_append {first second : List (List Char)} {statements : List Statement}
    (read : (readLines dialect first).result = .ok statements) (free : pendingAfter dialect first = [])
    (apart : commentGoesOn first second = false) :
    readLines dialect (first ++ second) = (readLines dialect first).andThen fun above =>
      (readLines dialect second).shift first.length fun more =>
        above ++ more.map (Statement.shift first.length) := by
  obtain ⟨s, readFirst, finished⟩ := readLines_ok read
  obtain ⟨atStatements, outermost, items⟩ := ReaderState.atStatements_of_finish finished
  have free : s.pending = [] := by simpa only [pendingAfter, readFirst] using free
  have apart : s.run = none ∨ second.head?.any Line.isComment = false := by
    rcases Bool.and_eq_false_iff.mp apart with noComment | noComment
    · exact Or.inl (run_eq_none readFirst noComment)
    · exact Or.inr noComment
  -- With its comment lines closed, the reader below the first text is a fresh one, moved down.
  have below := readLines_below dialect first.length s.closeRun.items second
  rw [← ReaderState.closeRun_eq_below atStatements outermost free, items,
    readFrom_closeRun atStatements apart] at below
  rw [readLines, readFrom_append, Outcome.andThen_assoc, readLines.eq_1 dialect first,
    Outcome.andThen_assoc]
  apply Outcome.andThen_congr
  intro t readAgain
  rw [readFirst] at readAgain
  cases readAgain
  rw [Nat.zero_add, below, finished]
  rfl

/-- No annotation waits after an empty line below a text where none does. -/
theorem pendingAfter_append_empty {lines : List (List Char)} {statements : List Statement}
    (read : (readLines dialect lines).result = .ok statements)
    (free : pendingAfter dialect lines = []) :
    pendingAfter dialect (lines ++ [[]]) = [] := by
  obtain ⟨s, readFirst, finished⟩ := readLines_ok read
  obtain ⟨atStatements, -, -⟩ := ReaderState.atStatements_of_finish finished
  simp only [pendingAfter, readFirst] at free
  have readEmpty : (readFrom dialect 0 {} (lines ++ [[]])).result = .ok s.closeRun := by
    rw [readFrom_append, Outcome.andThen, readFirst]
    simp only [readFrom, ReaderState.step_empty atStatements, Outcome.ok_andThen]
    rfl
  simp only [pendingAfter, readEmpty, ReaderState.closeRun_pending, free]

/-- Two texts with an empty line between them, the upper one with nothing that carries over, are read as
if each stood alone. -/
theorem readLines_append_empty {upper lower : List (List Char)} {upperTree lowerTree : List Statement}
    (readUpper : (readLines dialect upper).result = .ok upperTree)
    (free : pendingAfter dialect upper = [])
    (readLower : (readLines dialect lower).result = .ok lowerTree) :
    (readLines dialect (upper ++ [[]] ++ lower)).result =
      .ok (upperTree ++ lowerTree.map (Statement.shift (upper.length + 1))) := by
  have blank : Line.isComment [] = false := rfl
  have apartUpper : commentGoesOn upper [[]] = false := by simp [commentGoesOn, blank]
  have ended : (readLines dialect (upper ++ [[]])).result = .ok upperTree := by
    have nothing : readLines dialect [[]] = .ok [] := rfl
    rw [readLines_append readUpper free apartUpper, Outcome.andThen, readUpper, nothing]
    simp [Outcome.shift, Outcome.ok]
  have apartLower : commentGoesOn (upper ++ [[]]) lower = false := by simp [commentGoesOn, blank]
  rw [readLines_append ended (pendingAfter_append_empty readUpper free) apartLower, Outcome.andThen,
    ended]
  simp [Outcome.shift, readLower]

/-- Reading is compositional, in both dialects: if the first text is read, no annotation waits at its end
and no comment goes on from it into the second one, then the two texts one after the other give the
statements of the first and those of the second, moved down by the lines of the first, or the error of
the second, moved down; and their warnings likewise. -/
theorem appended_text_read_alone (dialect : Dialect) (first second : List (List Char))
    (statements : List Statement)
    (read : (readLines dialect first).result = .ok statements)
    (free : pendingAfter dialect first = []) (apart : commentGoesOn first second = false) :
    (∀ more, (readLines dialect second).result = .ok more →
      (readLines dialect (first ++ second)).result =
        .ok (statements ++ more.map (Statement.shift first.length))) ∧
    (∀ e, (readLines dialect second).result = .error e →
      (readLines dialect (first ++ second)).result = .error (e.shift first.length)) ∧
    (readLines dialect (first ++ second)).warnings =
      (readLines dialect first).warnings ++
        (readLines dialect second).warnings.map (Warning.shift first.length) := by
  rw [readLines_append read free apart, Outcome.andThen, read]
  refine ⟨?_, ?_, rfl⟩
  · intro more readSecond
    simp only [Outcome.shift, readSecond]
  · intro e failed
    simp only [Outcome.shift, failed]

/-- An interface that is left open below an annotated class, and a warning for each. -/
theorem open_interface_below_class :
    let first := ["@note", "class C", "end class", "' c"].map String.toList
    let second := ["", "' i", "interface I"].map String.toList
    (readLines .brightScript (first ++ second)).result =
        .error (.unterminated .ofInterface 7) ∧
      (readLines .brightScript (first ++ second)).warnings =
        [.annotationLine 1, .declaration "class" 2, .declaration "interface" 7] := by
  intro first second
  have readable : (readLines .brightScript first).result.toOption.isSome = true := by
    decide +kernel
  cases read : (readLines .brightScript first).result with
  | error e =>
    rw [read] at readable
    cases readable
  | ok statements =>
    obtain ⟨-, failed, warnings⟩ := appended_text_read_alone .brightScript first second statements
      read (by rfl) (by decide)
    exact ⟨failed (.unterminated .ofInterface 3) (by rfl), warnings.trans (by decide +kernel)⟩

end BrightDoc
