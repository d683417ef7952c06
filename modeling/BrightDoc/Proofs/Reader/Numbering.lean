import BrightDoc.Proofs.Reader.Dialects
import BrightDoc.Proofs.Tree.Numbers

/-! # How the members of enums are numbered

What a line does to the enums of a text is said once, by `Counts`: it has nothing to do with them, or it
opens one, is skipped in one, writes a member, or closes one. Main statement: the members of an enum are
those written on its lines, each with the value that the written values give it, and the members whose
values are left open are the ones that are reported. -/

namespace BrightDoc

variable {dialect : Dialect}

/-- The name and line of the member that the warning is about, if it is about one. -/
def Warning.openMember? : Warning → Option (String × Nat)
  | openValue member line => some (member, line)
  | _ => none

/-- An enum that is being read: the number of its first line, its members so far, and the number for the
next one. -/
structure Counting where
  start : Nat
  members : List EnumMember
  next : Option Int

/-- The enums around the innermost list of statements. -/
def frameEnums : List NamespaceFrame → List EnumDecl
  | [] => []
  | f :: outer => frameEnums outer ++ enumsOf f.before.reverse

/-- The enum that the next line belongs to. -/
def Focus.counting? : Focus → Option Counting
  | enumBody b next => some ⟨b.start.line, b.body.reverse.filterMap EnumItem.member?, next⟩
  | _ => none

/-- A member of an enum is counted, and the comment that ends its line is not. -/
theorem counting?_member (b : OpenBlock EnumItem) (m : EnumMember) (l : SourceLine)
    (next : Option Int) :
    (Focus.enumBody ((b.push (.member m)).push? (l.trailing?.map EnumItem.comment)) next).counting? =
      some ⟨b.start.line, b.body.reverse.filterMap EnumItem.member? ++ [m], next⟩ := by
  have comment : (l.trailing?.map EnumItem.comment).toList.reverse.filterMap EnumItem.member? = [] := by
    cases l.trailing? <;> rfl
  simp only [Focus.counting?, OpenBlock.push?, OpenBlock.push, List.reverse_append,
    List.reverse_cons, List.filterMap_append, comment, List.append_nil]
  rfl

namespace ReaderState

/-- The enums that have been read. -/
def enums (s : ReaderState) : List EnumDecl :=
  frameEnums s.frames ++ enumsOf s.items.reverse

theorem enums_push (s : ReaderState) (statement : Statement) :
    (s.push statement).enums = s.enums ++ statement.enums := by
  rw [enums, enums, push, enumsOf_reverse_cons, List.append_assoc]

theorem enums_addComment (s : ReaderState) (l : SourceLine) : (s.addComment l).enums = s.enums := by
  obtain ⟨frames, items, focus, run, pending⟩ := s
  cases run <;> rfl

theorem counting?_addComment (s : ReaderState) (l : SourceLine) :
    (s.addComment l).focus.counting? = s.focus.counting? := by
  obtain ⟨frames, items, focus, run, pending⟩ := s
  cases run <;> rfl

theorem enums_closeRun (s : ReaderState) : s.closeRun.enums = s.enums := by
  obtain ⟨frames, items, focus, run, pending⟩ := s
  cases run with
  | none => rfl
  | some c =>
    cases focus with
    | statements =>
      simp only [enums, closeRun, pushComment, enumsOf_reverse_cons, Statement.enums, List.append_nil]
    | _ => rfl

theorem counting?_closeRun (s : ReaderState) : s.closeRun.focus.counting? = s.focus.counting? := by
  obtain ⟨frames, items, focus, run, pending⟩ := s
  cases run with
  | none => rfl
  | some c =>
    cases focus with
    | enumBody b next =>
      simp [closeRun, pushComment, Focus.counting?, OpenBlock.push, EnumItem.member?]
    | _ => rfl

end ReaderState

/-- `Counts l s t opened`: between the two states the line `l` does this to the enums, and the members
in `opened` are those whose values it leaves open. -/
inductive Counts (l : SourceLine) (s t : ReaderState) : List (String × Nat) → Prop where
  /-- The line has nothing to do with enums. -/
  | aside (outside : s.focus.counting? = none) (still : t.focus.counting? = none)
      (same : t.enums = s.enums) : Counts l s t []
  /-- The line opens an enum. -/
  | opens (outside : s.focus.counting? = none) (opened : t.focus.counting? = some ⟨l.index, [], some 0⟩)
      (same : t.enums = s.enums) : Counts l s t []
  /-- The line is a comment line or blank. -/
  | skipped {c : Counting} (inside : s.focus.counting? = some c) (still : t.focus.counting? = some c)
      (empty : (Line.isComment l.text || Line.isBlank l.text) = true) (same : t.enums = s.enums) :
      Counts l s t []
  /-- The line writes a member. -/
  | member {c : Counting} {m : WrittenMember} (inside : s.focus.counting? = some c)
      (code : (Line.isComment l.text || Line.isBlank l.text) = false)
      (reads : WrittenMember.on? l = some m)
      (still : t.focus.counting? = some
        { c with
          members := c.members ++ [m.memberFrom c.next]
          next := (EnumValue.assign m.value c.next).next })
      (same : t.enums = s.enums) : Counts l s t (m.openFrom c.next)
  /-- The line closes the enum. -/
  | closes {c : Counting} {e : EnumDecl} (inside : s.focus.counting? = some c)
      (outside : t.focus.counting? = none) (members : e.members = c.members)
      (start : e.placement.range.start.line = c.start) (stop : e.placement.range.stop.line = l.index)
      (added : t.enums = s.enums ++ [e]) : Counts l s t []

/-- What an outcome for a line does to the enums, if it has a result. -/
def CountsIn (l : SourceLine) (s : ReaderState) (outcome : Outcome ReaderState) : Prop :=
  ∀ t, outcome.result = .ok t → Counts l s t (outcome.warnings.filterMap Warning.openMember?)

theorem Counts.congr {l : SourceLine} {r s t : ReaderState} {opened : List (String × Nat)}
    (counts : Counts l r t opened) (enums : s.enums = r.enums)
    (counting : s.focus.counting? = r.focus.counting?) : Counts l s t opened := by
  cases counts with
  | aside outside still same => exact .aside (counting.trans outside) still (same.trans enums.symm)
  | opens outside opened same => exact .opens (counting.trans outside) opened (same.trans enums.symm)
  | skipped inside still empty same =>
    exact .skipped (counting.trans inside) still empty (same.trans enums.symm)
  | member inside code reads still same =>
    exact .member (counting.trans inside) code reads still (same.trans enums.symm)
  | closes inside outside members start stop added =>
    exact .closes (counting.trans inside) outside members start stop (by rw [added, enums])

section Counting

variable {s t : ReaderState} {l : SourceLine}

theorem countsIn_fail (error : ParseError) : CountsIn l s (.fail error) := by
  intro t done
  cases done

theorem countsIn_aside (outside : s.focus.counting? = none) (still : t.focus.counting? = none)
    (same : t.enums = s.enums) : CountsIn l s (.ok t) := by
  intro u done
  cases done
  exact .aside outside still same

/-- A warning about something else changes nothing. -/
theorem countsIn_feature {warning : Warning} {outcome : Outcome ReaderState}
    (other : warning.openMember? = none) (counts : CountsIn l s outcome) :
    CountsIn l s (outcome.feature dialect warning) := by
  cases dialect with
  | brightScript =>
    intro t done
    rw [Outcome.feature, Outcome.warn, List.filterMap_cons_none other]
    exact counts t done
  | brighterScript => exact counts

theorem countsIn_push (outside : s.focus.counting? = none) {statement : Statement}
    (other : statement.enums = []) : CountsIn l s (.ok (s.push statement)) := by
  refine countsIn_aside outside rfl ?_
  rw [s.enums_push, other, List.append_nil]

theorem countsIn_endNamespace (atStatements : s.focus = .statements) (word : List Char) :
    CountsIn l s (s.endNamespace l word) := by
  obtain ⟨frames, items, focus, run, pending⟩ := s
  subst atStatements
  unfold ReaderState.endNamespace
  split
  · rename_i frame outer same
    cases same
    split
    · refine countsIn_aside rfl rfl ?_
      simp only [ReaderState.enums, enumsOf_reverse_cons, Statement.enums, frameEnums,
        List.append_assoc]
    · exact countsIn_fail _
  · exact countsIn_fail _

theorem countsIn_declare (atStatements : s.focus = .statements) (word : List Char) :
    CountsIn l s (s.declare l word) := by
  have outside : s.focus.counting? = none := by rw [atStatements]; rfl
  have trailing : enumsOf (l.trailing?.map Statement.comment).toList.reverse = [] := by
    cases l.trailing? <;> simp [enumsOf, Statement.enums]
  unfold ReaderState.declare
  split
  · split
    · exact countsIn_aside outside rfl rfl
    · exact countsIn_fail _
  split
  · split
    · exact countsIn_aside outside rfl rfl
    · exact countsIn_fail _
  split
  · split
    · intro t done
      cases done
      refine .opens outside ?_ rfl
      -- The comment that ends the line is no member.
      simp only [ReaderState.openBlock]
      cases l.trailing? <;> rfl
    · exact countsIn_fail _
  split
  · split
    · refine countsIn_aside outside ?_ ?_
      · exact outside
      · simp only [ReaderState.enums, ReaderState.openNamespace, frameEnums, trailing, List.append_nil]
    · exact countsIn_fail _
  · split
    · refine countsIn_aside outside outside ?_
      simp only [ReaderState.enums, List.reverse_append, enumsOf_append, trailing,
        enumsOf_reverse_cons, Statement.enums, List.append_nil]
    · exact countsIn_fail _

theorem countsIn_statementLine (atStatements : s.focus = .statements) :
    CountsIn l s (s.statementLine dialect l) := by
  have outside : s.focus.counting? = none := by rw [atStatements]; rfl
  unfold ReaderState.statementLine
  split
  · exact countsIn_feature rfl (countsIn_aside outside outside rfl)
  split
  · exact countsIn_endNamespace atStatements _
  split
  · split
    · exact countsIn_aside outside rfl rfl
    · exact countsIn_fail _
  split
  · exact countsIn_fail _
  split
  · exact countsIn_feature rfl (countsIn_declare atStatements _)
  · exact countsIn_aside outside outside rfl

theorem countsIn_classLine {b : OpenBlock ClassItem} (inClass : s.focus = .classBody b) :
    CountsIn l s (s.classLine dialect b l) := by
  have outside : s.focus.counting? = none := by rw [inClass]; rfl
  unfold ReaderState.classLine
  split
  · exact countsIn_feature rfl (countsIn_aside outside outside rfl)
  split
  · split
    · exact countsIn_push outside rfl
    · exact countsIn_fail _
  split
  · split
    · exact countsIn_aside outside rfl rfl
    · exact countsIn_fail _
  split
  · exact countsIn_fail _
  split
  · exact countsIn_aside outside rfl rfl
  · exact countsIn_aside outside outside rfl

theorem countsIn_interfaceLine {b : OpenBlock InterfaceItem}
    (inInterface : s.focus = .interfaceBody b) : CountsIn l s (s.interfaceLine dialect b l) := by
  have outside : s.focus.counting? = none := by rw [inInterface]; rfl
  unfold ReaderState.interfaceLine
  split
  · exact countsIn_feature rfl (countsIn_aside outside outside rfl)
  split
  · split
    · exact countsIn_push outside rfl
    · exact countsIn_fail _
  dsimp only
  split
  · split
    · exact countsIn_aside outside rfl rfl
    · exact countsIn_fail _
  split
  · exact countsIn_aside outside rfl rfl
  · exact countsIn_fail _

/-- A line of an enum that is code writes a member or closes the enum. -/
theorem countsIn_enumLine {b : OpenBlock EnumItem} {next : Option Int}
    (inEnum : s.focus = .enumBody b next)
    (code : (Line.isComment l.text || Line.isBlank l.text) = false) :
    CountsIn l s (s.enumLine b next l) := by
  have inside : s.focus.counting? = some ⟨b.start.line, b.body.reverse.filterMap EnumItem.member?,
      next⟩ := by
    rw [inEnum]
    rfl
  unfold ReaderState.enumLine
  split
  · split
    · intro t done
      cases done
      exact .closes inside rfl rfl rfl rfl (s.enums_push _)
    · exact countsIn_fail _
  split
  · rename_i name written reads
    have found : WrittenMember.on? l = some { line := l, name, value := written } := by
      rw [WrittenMember.on?, reads, Option.map_some]
    dsimp only
    intro t done
    have counts := Counts.member inside code found (t := { s with focus := .enumBody _ _ })
      (counting?_member b _ l _) rfl
    rw [WrittenMember.openFrom] at counts
    split at done
    · rename_i isOpen
      cases done
      rw [if_pos isOpen] at counts ⊢
      exact counts
    · rename_i closed
      cases done
      rw [if_neg closed] at counts ⊢
      exact counts
  · exact countsIn_fail _

theorem countsIn_blockLine (outside : s.sketch.inCode = false)
    (code : (Line.isComment l.text || Line.isBlank l.text) = false) :
    CountsIn l s (s.blockLine dialect l) := by
  unfold ReaderState.blockLine
  cases found : s.focus with
  | statements => exact countsIn_statementLine found
  | classBody b => exact countsIn_classLine found
  | interfaceBody b => exact countsIn_interfaceLine found
  | enumBody b next => exact countsIn_enumLine found code
  | functionBody f depth =>
    simp only [ReaderState.sketch, ReaderState.levels, found] at outside
    cases outside
  | methodBody b m depth =>
    simp only [ReaderState.sketch, ReaderState.levels, found] at outside
    cases outside

/-- A comment line or a blank line changes no enum. -/
theorem countsIn_skipped (same : t.enums = s.enums) (still : t.focus.counting? = s.focus.counting?)
    (empty : (Line.isComment l.text || Line.isBlank l.text) = true) : CountsIn l s (.ok t) := by
  cases inside : s.focus.counting? with
  | none => exact countsIn_aside inside (still.trans inside) same
  | some c =>
    intro u done
    cases done
    exact .skipped inside (still.trans inside) empty same

theorem countsIn_gather (outside : s.sketch.inCode = false) :
    CountsIn l s (s.gather l (ReaderState.blockLine dialect)) := by
  unfold ReaderState.gather
  split
  · rename_i comment
    exact countsIn_skipped (s.enums_addComment l) (s.counting?_addComment l) (by rw [comment]; rfl)
  split
  · rename_i blank
    exact countsIn_skipped s.enums_closeRun s.counting?_closeRun (by rw [blank, Bool.or_true])
  · rename_i comment blank
    have code : (Line.isComment l.text || Line.isBlank l.text) = false := by
      rw [Bool.eq_false_of_not_eq_true comment, Bool.eq_false_of_not_eq_true blank]
      rfl
    intro t done
    exact (countsIn_blockLine (s.closeRun_inCode outside) code t done).congr
      s.enums_closeRun.symm s.counting?_closeRun.symm

/-- Every line that is taken does one of these things to the enums. -/
theorem countsIn_step (s : ReaderState) (l : SourceLine) : CountsIn l s (s.step dialect l) := by
  obtain ⟨frames, items, focus, run, pending⟩ := s
  cases focus with
  | functionBody f depth =>
    unfold ReaderState.step
    dsimp only
    split
    · exact countsIn_push rfl rfl
    · exact countsIn_aside rfl rfl rfl
  | methodBody b m depth =>
    unfold ReaderState.step
    dsimp only
    split
    · exact countsIn_aside rfl rfl rfl
    · exact countsIn_aside rfl rfl rfl
  | statements =>
    apply countsIn_gather
    cases frames <;> rfl
  | classBody b => exact countsIn_gather rfl
  | interfaceBody b => exact countsIn_gather rfl
  | enumBody b next => exact countsIn_gather rfl

end Counting

/-- The members are the ones written on the lines from the line `first` on and before the line `last`,
where every line of code writes one. -/
structure NumberedBy (lines : List (List Char)) (first last : Nat) (members : List EnumMember) :
    Prop where
  complete : ∀ l ∈ codeLinesIn lines first last, (WrittenMember.on? l).isSome = true
  members_eq : members = WrittenMember.members (membersIn lines first last)

/-- The reader before the line `index` has numbered the members of all enums, those of the enum that is
being read up to this line, and `opened` are the ones whose values were left open. -/
structure ReaderState.Numbered (lines : List (List Char)) (index : Nat)
    (opened : List (String × Nat)) (s : ReaderState) : Prop where
  closed : ∀ e ∈ s.enums,
    NumberedBy lines (e.placement.range.start.line + 1) e.placement.range.stop.line e.members
  current : ∀ c, s.focus.counting? = some c →
    c.start < index ∧ NumberedBy lines (c.start + 1) index c.members ∧
      c.next = WrittenMember.next (membersIn lines (c.start + 1) index)
  opened_eq : opened = s.enums.flatMap (EnumDecl.opens lines) ++
    s.focus.counting?.elim [] fun c => WrittenMember.opens (membersIn lines (c.start + 1) index)

namespace NumberedBy

variable {lines : List (List Char)} {l : SourceLine} {m : WrittenMember} {first last : Nat}
  {members : List EnumMember}

theorem empty (lines : List (List Char)) (line : Nat) : NumberedBy lines line line [] := by
  refine ⟨?_, ?_⟩
  · intro l inside
    rw [codeLinesIn_self] at inside
    cases inside
  · rw [membersIn_self]
    rfl

theorem skip (numbered : NumberedBy lines first last members) (le : first ≤ last)
    (empty : codeLineAt? lines last = none) : NumberedBy lines first (last + 1) members := by
  refine ⟨?_, ?_⟩
  · rw [codeLinesIn_succ le, empty, Option.toList_none, List.append_nil]
    exact numbered.complete
  · rw [membersIn_succ_of_empty le empty]
    exact numbered.members_eq

theorem add (numbered : NumberedBy lines first last members) (le : first ≤ last)
    (found : codeLineAt? lines last = some l) (reads : WrittenMember.on? l = some m) :
    NumberedBy lines first (last + 1)
      (members ++ [m.memberFrom (WrittenMember.next (membersIn lines first last))]) := by
  refine ⟨?_, ?_⟩
  · intro line inside
    rw [codeLinesIn_succ le, found, Option.toList_some, List.mem_append, List.mem_singleton] at inside
    rcases inside with before | rfl
    · exact numbered.complete line before
    · rw [reads]
      rfl
  · rw [membersIn_succ_of_member le found reads, WrittenMember.members_append,
      ← numbered.members_eq]

end NumberedBy

namespace ReaderState

variable {lines : List (List Char)} {text : List Char} {index : Nat} {s t : ReaderState}
  {opened more : List (String × Nat)}

/-- What is numbered stays so with every line. -/
theorem Numbered.step (numbered : s.Numbered lines index opened) (here : lines[index]? = some text)
    (counts : Counts ⟨index, text⟩ s t more) : t.Numbered lines (index + 1) (opened ++ more) := by
  -- Closed enums end before this line, so only for the current one the line is a further one.
  have before := numbered.opened_eq
  cases counts with
  | aside outside still same =>
    refine ⟨same ▸ numbered.closed, ?_, ?_⟩
    · intro c counting
      rw [still] at counting
      cases counting
    · rw [List.append_nil, before, same, outside, still]
      rfl
  | opens outside opened same =>
    refine ⟨same ▸ numbered.closed, ?_, ?_⟩
    · intro c counting
      cases opened.symm.trans counting
      refine ⟨Nat.lt_succ_self index, .empty lines _, ?_⟩
      rw [membersIn_self]
      rfl
    · rw [List.append_nil, before, same, outside, opened, Option.elim_some, membersIn_self]
      rfl
  | skipped inside still empty same =>
    rename_i c
    obtain ⟨started, members, next⟩ := numbered.current c inside
    have none := codeLineAt?_of_empty here empty
    refine ⟨same ▸ numbered.closed, ?_, ?_⟩
    · intro c counting
      cases still.symm.trans counting
      refine ⟨Nat.lt_succ_of_lt started, members.skip started none, ?_⟩
      rw [membersIn_succ_of_empty started none]
      exact next
    · rw [List.append_nil, before, same, inside, still, Option.elim_some, Option.elim_some,
        membersIn_succ_of_empty started none]
  | member inside code reads still same =>
    rename_i c m
    obtain ⟨started, members, next⟩ := numbered.current c inside
    have found := codeLineAt?_of_code here code
    refine ⟨same ▸ numbered.closed, ?_, ?_⟩
    · intro c counting
      cases still.symm.trans counting
      refine ⟨Nat.lt_succ_of_lt started, ?_, ?_⟩
      · rw [next]
        exact members.add started found reads
      · rw [membersIn_succ_of_member started found reads, next, WrittenMember.assign_next]
    · rw [before, same, inside, still, Option.elim_some, Option.elim_some, List.append_assoc,
        membersIn_succ_of_member started found reads, WrittenMember.opens_append, ← next]
  | closes inside outside members start stop added =>
    rename_i c e
    obtain ⟨-, current, -⟩ := numbered.current c inside
    rw [← start, ← members] at current
    refine ⟨?_, ?_, ?_⟩
    · intro read among
      rw [added, List.mem_append, List.mem_singleton] at among
      rcases among with old | rfl
      · exact numbered.closed read old
      · rw [stop]
        exact current
    · intro c counting
      rw [outside] at counting
      cases counting
    · rw [List.append_nil, before, added, inside, outside, List.flatMap_append, List.flatMap_singleton,
        EnumDecl.opens, EnumDecl.written, start, stop, Option.elim_some, Option.elim_none,
        List.append_nil]

theorem enums_of_finish {statements : List Statement} (finished : t.finish = .ok statements) :
    t.enums = enumsOf statements ∧ t.focus.counting? = none := by
  obtain ⟨atStatements, noFrames, items⟩ := atStatements_of_finish finished
  have noFrame : t.closeRun.frames = [] := by
    obtain ⟨frames, items, focus, run, pending⟩ := t
    cases run with
    | none => exact noFrames
    | some c => cases focus <;> exact noFrames
  refine ⟨?_, ?_⟩
  · rw [← t.enums_closeRun, enums, noFrame, items]
    rfl
  · rw [atStatements]
    rfl

end ReaderState

/-- What is numbered stays so in a whole run, and the members whose values are left open are reported. -/
theorem readFrom_numbered (lines : List (List Char)) :
    ∀ (rest before : List (List Char)) (opened : List (String × Nat)) (s t : ReaderState),
      lines = before ++ rest → s.Numbered lines before.length opened →
      (readFrom dialect before.length s rest).result = .ok t →
      t.Numbered lines lines.length
        (opened ++ (readFrom dialect before.length s rest).warnings.filterMap Warning.openMember?) := by
  intro rest
  induction rest with
  | nil =>
    intro before opened s t split numbered read
    cases read
    rw [List.append_nil] at split
    rw [split] at numbered ⊢
    exact (List.append_nil opened).symm ▸ numbered
  | cons text more ih =>
    intro before opened s t split numbered read
    obtain ⟨u, stepped, readMore⟩ := Outcome.andThen_eq_ok read
    have here : lines[before.length]? = some text := by
      rw [split, List.getElem?_append_right (Nat.le_refl _), Nat.sub_self, List.getElem?_cons_zero]
    have warnings : (readFrom dialect before.length s (text :: more)).warnings =
        (s.step dialect ⟨before.length, text⟩).warnings ++
          (readFrom dialect (before.length + 1) u more).warnings :=
      Outcome.warnings_andThen stepped _
    have next := numbered.step here (countsIn_step s _ u stepped)
    have longer : before.length + 1 = (before ++ [text]).length := by
      rw [List.length_append, List.length_singleton]
    rw [longer] at warnings next readMore
    rw [warnings, List.filterMap_append, ← List.append_assoc]
    exact ih (before ++ [text]) _ u t (by rw [split, List.append_cons]) next readMore

/-- The enums of a text that has been read. -/
theorem numbered_of_read {lines : List (List Char)} {statements : List Statement}
    (read : (readLines dialect lines).result = .ok statements) :
    (∀ e ∈ enumsOf statements,
      NumberedBy lines (e.placement.range.start.line + 1) e.placement.range.stop.line e.members) ∧
    (readLines dialect lines).warnings.filterMap Warning.openMember? =
      (enumsOf statements).flatMap (EnumDecl.opens lines) := by
  obtain ⟨t, run, finished⟩ := readLines_ok read
  obtain ⟨enums, outside⟩ := ReaderState.enums_of_finish finished
  have start : ReaderState.Numbered lines 0 [] {} := by
    refine ⟨?_, ?_, rfl⟩
    · intro e among
      cases among
    · intro c counting
      cases counting
  have numbered := readFrom_numbered lines lines [] [] {} t rfl start run
  have opened := numbered.opened_eq
  rw [outside, Option.elim_none, List.append_nil, enums] at opened
  refine ⟨enums ▸ numbered.closed, ?_⟩
  rw [← opened, readLines, Outcome.warnings_andThen run]
  exact congrArg _ (List.append_nil _)

/-- The warnings about something else than a feature of the richer dialect are about members. -/
theorem Warning.filter_notFeature (warnings : List Warning) :
    warnings.filter (fun w => !w.isDialectFeature) =
      (warnings.filterMap openMember?).map fun found => openValue found.1 found.2 := by
  induction warnings with
  | nil => rfl
  | cons w more ih =>
    cases w with
    | annotationLine line => exact ih
    | declaration word line => exact ih
    | openValue member line => exact congrArg _ ih

/-- The members of an enum are numbered by what is written: in every text that can be read, each line of
an enum that is neither blank nor a comment line writes a member, and these are its members, each with
the value that is told by the written ones. Besides the warnings about the features of the richer
dialect there is one for each member whose value is left open, with its name and line, and no other.
The written numbers are the texts of digits with an optional sign, within the range of 64-bit words, and
they are counted on in such words, which hold every number in this range as it is.
Enums whose lines differ only in comments and blank lines have the same values. -/
theorem enum_members_numbered (dialect : Dialect) (source : String) (statements : List Statement)
    (parsed : (parse dialect source).result = .ok statements) :
    (∀ e ∈ enumsOf statements,
      (∀ l ∈ e.codeLines (Text.lines source.toList), (WrittenMember.on? l).isSome = true) ∧
      e.members = WrittenMember.members (e.written (Text.lines source.toList))) ∧
    (parse dialect source).warnings.filter (fun w => !w.isDialectFeature) =
      ((enumsOf statements).flatMap (EnumDecl.opens (Text.lines source.toList))).map
        (fun found => .openValue found.1 found.2) ∧
    (∀ text number, EnumValue.whole? text = some number ↔ EnumValue.Denotes text number ∧
      -9223372036854775808 ≤ number ∧ number ≤ 9223372036854775807) ∧
    (∀ number, -9223372036854775808 ≤ number → number ≤ 9223372036854775807 →
      EnumValue.word number = number) ∧
    ∀ (other : String) (otherStatements : List Statement),
      (parse dialect other).result = .ok otherStatements →
      ∀ e ∈ enumsOf statements, ∀ e' ∈ enumsOf otherStatements,
        (e.codeLines (Text.lines source.toList)).map SourceLine.code =
          (e'.codeLines (Text.lines other.toList)).map SourceLine.code →
        e.members.map EnumMember.value = e'.members.map EnumMember.value := by
  obtain ⟨numbered, opened⟩ := numbered_of_read parsed
  refine ⟨?_, ?_, ?_, ?_, ?_⟩
  · intro e among
    exact ⟨(numbered e among).complete, (numbered e among).members_eq⟩
  · rw [Warning.filter_notFeature, parse, opened]
  · exact fun text number => EnumValue.whole?_eq_some_iff
  · exact fun number least greatest => EnumValue.word_eq_self least greatest
  · intro other otherStatements otherParsed e among e' among' sameCode
    have otherNumbered := (numbered_of_read otherParsed).1 e' among'
    rw [(numbered e among).members_eq, otherNumbered.members_eq, WrittenMember.map_value_members,
      WrittenMember.map_value_members, values_membersIn, values_membersIn]
    rw [EnumDecl.codeLines, EnumDecl.codeLines] at sameCode
    rw [sameCode]

/-- Members are counted on from a number below zero, over a comment and a blank line, and not after a
text. -/
theorem signed_member_counted_on :
    let source :=
      "namespace ab\nenum E ' x\nA = -1\n' B\n\nC\nD = \"x\"\nF\nend enum\nend namespace"
    ((parse .brightScript source).result.toOption.map fun statements =>
      (enumsOf statements).map fun e => e.members.map EnumMember.value) =
        some [["-1", "0", "\"x\"", EnumValue.placeholder]] ∧
    (parse .brightScript source).warnings.filter (fun w => !w.isDialectFeature) =
      [.openValue "F" 8] := by
  intro source
  have run : (parse .brightScript source).result.toOption.map (fun statements =>
      ((enumsOf statements).map fun e =>
        (WrittenMember.members (e.written (Text.lines source.toList))).map EnumMember.value,
      (enumsOf statements).flatMap (EnumDecl.opens (Text.lines source.toList)))) =
        some ([["-1", "0", "\"x\"", EnumValue.placeholder]], [("F", 8)]) := by
    decide +kernel
  cases parsed : (parse .brightScript source).result with
  | error e =>
    rw [parsed] at run
    cases run
  | ok statements =>
    rw [parsed] at run
    obtain ⟨values, opened⟩ := Prod.mk.inj (Option.some.inj run)
    obtain ⟨members, warnings, -, -⟩ := enum_members_numbered .brightScript source statements parsed
    refine ⟨?_, ?_⟩
    · refine congrArg some ?_
      rw [← values]
      apply List.map_congr_left
      intro e among
      rw [(members e among).2]
    · rw [warnings, opened]
      rfl

end BrightDoc
