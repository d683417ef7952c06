import BrightDoc.Converter
import BrightDoc.Proofs.Carrier.Moved
import BrightDoc.Proofs.Carrier.Settling
import BrightDoc.Proofs.Reader.Concatenation
import BrightDoc.Proofs.Reader.Matching

/-! # Texts converted one after the other

A text with an empty line between two parts gives what one converter gives for the parts in turn. The
reader takes the parts apart at the empty line; comments of one part are too far from the declarations
of the other to document them; and what has been declared goes on from part to part as it does from
text to text. -/

namespace BrightDoc

variable {dialect : Dialect}

/-- The statements stand before the given line. -/
structure StandBefore (line : Nat) (statements : List Statement) : Prop where
  comments : ∀ c ∈ statements.filterMap Statement.comment?, c.range.stop.line < line
  places : ∀ statement ∈ statements, ∀ p ∈ statement.placement?,
    p.topLine < line ∧ p.range.start.line < line

theorem Statement.outline_of_placement? {statement : Statement} {p : Placement}
    (found : statement.placement? = some p) :
    ∃ header body, statement.outline = .decl header p body := by
  cases statement with
  | comment c => cases found
  | function f | classDecl c | interfaceDecl i | enumDecl e | constDecl c | namespaceDecl head body =>
    cases found
    exact ⟨_, _, by rw [Statement.outline]⟩

theorem Statement.eq_of_comment? {statement : Statement} {c : Comment}
    (found : statement.comment? = some c) : statement = .comment c := by
  cases statement <;> cases found
  rfl

theorem Position.In.lt {lines : List (List Char)} {p : Position} (inside : p.In lines) :
    p.line < lines.length := by
  obtain ⟨line, here, -⟩ := inside
  exact (List.getElem?_eq_some_iff.mp here).1

/-- What is read from some lines stands before their end. -/
theorem standBefore_of_read {lines : List (List Char)} {statements : List Statement}
    (read : (readLines dialect lines).result = .ok statements) :
    StandBefore lines.length statements := by
  have outlined := outlined_of_readLines read
  have outline : ∀ statement ∈ statements, statement.outline ∈ outlines statements := by
    intro statement member
    rw [outlines_eq_map]
    exact List.mem_map_of_mem member
  refine ⟨?_, ?_⟩
  · intro c listed
    obtain ⟨statement, member, found⟩ := List.mem_filterMap.mp listed
    rw [Statement.eq_of_comment? found] at member
    have placed := outlined.placed _ (outline _ member)
    rw [Statement.outline] at placed
    cases placed with
    | comment placed => exact placed.valid.stop.lt
  · intro statement member p found
    obtain ⟨header, body, same⟩ := Statement.outline_of_placement? found
    have inside : (header, p) ∈ declarationsOf (outlines statements) :=
      (mem_declarationsOf (same ▸ outline statement member)).1
    have start : p.range.start.line < lines.length := (outlined.declared inside).valid.start.lt
    exact ⟨Nat.lt_of_le_of_lt (outlined.topLine_le inside) start, start⟩

end BrightDoc

namespace BrightDoc.Carrier

/-- The entry is shown whatever has been declared, and has some text. -/
def Entry.Stays : Entry → Prop
  | declaration _ pieces => pieces ≠ []
  | nothing => True
  | moduleBlock _ | namespaceBlock .. => False

theorem Entry.Stays.lines {entry : Entry} (stays : entry.Stays) :
    entry.pieces.flatMap Piece.lines ≠ [] := by
  cases entry with
  | declaration space pieces =>
    cases pieces with
    | nil => exact absurd rfl stays
    | cons piece more => cases piece <;> simp [Entry.pieces, Piece.lines]
  | nothing => simp [Entry.pieces, Piece.lines]
  | moduleBlock name => exact stays.elim
  | namespaceBlock path body stub => exact stays.elim

theorem Entry.Stays.settled {entry : Entry} (stays : entry.Stays) {entries : List Entry}
    (inside : entry ∈ entries) (declared : Declared) : entry ∈ (settle declared entries).1 := by
  induction entries generalizing declared with
  | nil => cases inside
  | cons first more ih =>
    cases first with
    | moduleBlock name =>
      rcases List.mem_cons.mp inside with rfl | inside
      · exact stays.elim
      · exact List.mem_cons_of_mem _ (ih inside _)
    | namespaceBlock path body stub =>
      rcases List.mem_cons.mp inside with rfl | inside
      · exact stays.elim
      · simp only [settle]
        split
        · exact ih inside _
        · exact List.mem_cons_of_mem _ (ih inside _)
    | declaration space pieces =>
      rcases List.mem_cons.mp inside with rfl | inside
      · exact List.mem_cons_self
      · exact List.mem_cons_of_mem _ (ih inside _)
    | nothing =>
      rcases List.mem_cons.mp inside with rfl | inside
      · exact List.mem_cons_self
      · exact List.mem_cons_of_mem _ (ih inside _)

/-- The texts of two lists of entries stand on their own lines, if both have any. -/
theorem render_append {first second : List Entry} (above : ∃ entry ∈ first, entry.Stays)
    (below : ∃ entry ∈ second, entry.Stays) :
    render (first ++ second) = render first ++ "\n" ++ render second := by
  have written : ∀ {entries : List Entry}, (∃ entry ∈ entries, entry.Stays) →
      (entries.flatMap Entry.pieces).flatMap Piece.lines ≠ [] := by
    rintro entries ⟨entry, inside, stays⟩ empty
    rw [List.flatMap_assoc, List.flatMap_eq_nil_iff] at empty
    exact stays.lines (empty entry inside)
  simp only [render, renderPieces, List.flatMap_append]
  rw [String.intercalate_append_of_ne_nil (written above) (written below)]

section Trees

variable (escape : Bool)

mutual

/-- A declaration has an entry that stays. -/
theorem planStatement_stays (scope : Scope) (comments : List Comment) :
    (statement : Statement) → statement.comment? = none →
      ∃ entry ∈ planStatement escape scope comments statement, entry.Stays
  | .comment c, isComment => by cases isComment
  | .function f, _ => by simp [planStatement, Entry.Stays, functionPieces]
  | .classDecl c, _ => by simp [planStatement, Entry.Stays, classPieces]
  | .interfaceDecl i, _ => by simp [planStatement, Entry.Stays, interfacePieces]
  | .enumDecl e, _ => by simp [planStatement, Entry.Stays, enumPieces]
  | .constDecl c, _ => by simp [planStatement, Entry.Stays, constPieces]
  | .namespaceDecl head body, _ => by
    let inner : Scope := { scope with inSpace := scope.pathTo head.name }
    have inside : ∃ entry ∈ orNothing (planEach escape inner (body.filterMap Statement.comment?) body),
        entry.Stays := by
      rcases planEach_stays inner (body.filterMap Statement.comment?) body with empty | some
      · exact ⟨.nothing, by simp [orNothing, empty], trivial⟩
      · obtain ⟨entry, inside, stays⟩ := some
        exact ⟨entry, by simp [orNothing, List.ne_nil_of_mem inside, inside], stays⟩
    obtain ⟨entry, inside, stays⟩ := inside
    rw [planStatement]
    exact ⟨entry, List.mem_append_right _ inside, stays⟩

/-- Statements that have any entries have one that stays. -/
theorem planEach_stays (scope : Scope) (comments : List Comment) :
    (statements : List Statement) → planEach escape scope comments statements = [] ∨
      ∃ entry ∈ planEach escape scope comments statements, entry.Stays
  | [] => Or.inl (by rw [planEach])
  | statement :: more => by
    rw [planEach]
    cases found : statement.comment? with
    | none =>
      obtain ⟨entry, inside, stays⟩ := planStatement_stays scope comments statement found
      exact Or.inr ⟨entry, List.mem_append_left _ inside, stays⟩
    | some c =>
      rw [Statement.eq_of_comment? found, planStatement, List.nil_append]
      exact planEach_stays scope comments more

end

variable {escape}

theorem planEach_append (scope : Scope) (comments : List Comment) (first second : List Statement) :
    planEach escape scope comments (first ++ second) =
      planEach escape scope comments first ++ planEach escape scope comments second := by
  induction first with
  | nil => simp [planEach]
  | cons statement more ih => simp only [List.cons_append, planEach, ih, List.append_assoc]

/-- No comment of the upper statements documents one of the lower ones, nor the other way round. -/
theorem planEach_below {line : Nat} {upper : List Statement} (above : StandBefore line upper)
    (scope : Scope) (lower : List Statement) :
    planEach escape scope
        ((upper ++ lower.map (Statement.shift (line + 1))).filterMap Statement.comment?)
        (upper ++ lower.map (Statement.shift (line + 1))) =
      planEach escape scope (upper.filterMap Statement.comment?) upper ++
        planEach escape scope (lower.filterMap Statement.comment?) lower := by
  have moved := filterMap_comment?_shift (line + 1) lower
  rw [planEach_append, List.filterMap_append, moved]
  congr 1
  -- Comments of the lower part end below all lines that an upper declaration looks at.
  · apply planEach_congr
    intro statement member p found
    have place := above.places statement member p found
    have none : ((lower.filterMap Statement.comment?).map (Comment.shift (line + 1))).find?
        p.isDocumentedBy = none := by
      rw [List.find?_eq_none, List.forall_mem_map]
      intro c _
      rw [isDocumentedBy_iff]
      simp only [Comment.IsAbove, Comment.IsBeside, Comment.shift, Range.shift, Position.shift]
      omega
    rw [Placement.comment?, List.find?_append, none, Option.or_none, Placement.comment?]
  -- The empty line keeps the last upper comment from ending just above a lower declaration.
  · rw [← planEach_shift (line + 1) scope (lower.filterMap Statement.comment?) lower, shiftEach_eq_map]
    apply planEach_congr
    intro statement member p found
    obtain ⟨statement, -, rfl⟩ := List.mem_map.mp member
    rw [Statement.placement?_shift] at found
    obtain ⟨p, -, rfl⟩ := Option.map_eq_some_iff.mp found
    have none : (upper.filterMap Statement.comment?).find? (p.shift (line + 1)).isDocumentedBy =
        none := by
      rw [List.find?_eq_none]
      intro c listed
      have place := above.comments c listed
      have top := Placement.topLine_shift (line + 1) p
      have start : (p.shift (line + 1)).range.start.line = p.range.start.line + (line + 1) := rfl
      rw [isDocumentedBy_iff]
      simp only [Comment.IsAbove, Comment.IsBeside]
      omega
    rw [Placement.comment?, List.find?_append, none, Option.none_or, Placement.comment?]

/-- A list with a declaration has entries, one of which stays. -/
theorem plan_of_declares {statements : List Statement}
    (declares : ∃ statement ∈ statements, statement.comment? = none) (scope : Scope) :
    plan escape scope statements =
        planEach escape scope (statements.filterMap Statement.comment?) statements ∧
      ∃ entry ∈ plan escape scope statements, entry.Stays := by
  have some : ∃ entry ∈ planEach escape scope (statements.filterMap Statement.comment?) statements,
      entry.Stays := by
    obtain ⟨statement, member, isDeclaration⟩ := declares
    generalize statements.filterMap Statement.comment? = comments
    obtain ⟨before, after, rfl⟩ := List.append_of_mem member
    obtain ⟨entry, inside, stays⟩ := planStatement_stays escape scope comments statement isDeclaration
    rw [planEach_append, planEach]
    exact ⟨entry, List.mem_append_right _ (List.mem_append_left _ inside), stays⟩
  have same : plan escape scope statements =
      planEach escape scope (statements.filterMap Statement.comment?) statements := by
    obtain ⟨entry, inside, -⟩ := some
    simp [plan, orNothing, List.ne_nil_of_mem inside]
  exact ⟨same, same ▸ some⟩

end Trees

end BrightDoc.Carrier

namespace BrightDoc

open BrightDoc.Carrier

/-- Two lists of statements, the lower one below an empty line, are converted at once as they are one
after the other. -/
theorem Converter.emit_below {c : Converter} (silent : c.options.addModule = false)
    (moduleName : String) {line : Nat} {upper lower : List Statement} (above : StandBefore line upper)
    (declaresUpper : ∃ statement ∈ upper, statement.comment? = none)
    (declaresLower : ∃ statement ∈ lower, statement.comment? = none) :
    c.emit moduleName (upper ++ lower.map (Statement.shift (line + 1))) =
      ((c.emit moduleName upper).1 ++ "\n" ++ ((c.emit moduleName upper).2.emit moduleName lower).1,
        ((c.emit moduleName upper).2.emit moduleName lower).2) := by
  have planned : ∀ statements, entries c.options moduleName statements =
      plan c.options.escapeMarkup { inModule := moduleName } statements := by
    intro statements
    rw [entries, silent]
    rfl
  let scope : Scope := { inModule := moduleName }
  obtain ⟨planUpper, staysUpper⟩ := @plan_of_declares c.options.escapeMarkup upper
    declaresUpper scope
  obtain ⟨planLower, staysLower⟩ := @plan_of_declares c.options.escapeMarkup lower
    declaresLower scope
  have declares : ∃ statement ∈ upper ++ lower.map (Statement.shift (line + 1)),
      statement.comment? = none := by
    obtain ⟨statement, member, isDeclaration⟩ := declaresUpper
    exact ⟨statement, List.mem_append_left _ member, isDeclaration⟩
  have whole : plan c.options.escapeMarkup scope (upper ++ lower.map (Statement.shift (line + 1))) =
      plan c.options.escapeMarkup scope upper ++ plan c.options.escapeMarkup scope lower := by
    rw [(plan_of_declares declares scope).1, planUpper, planLower, planEach_below above]
  have stays : ∀ {entries : List Entry} (declared : Declared), (∃ entry ∈ entries, entry.Stays) →
      ∃ entry ∈ (settle declared entries).1, entry.Stays := by
    rintro entries declared ⟨entry, inside, stays⟩
    exact ⟨entry, stays.settled inside declared, stays⟩
  simp only [emit, planned]
  rw [whole, settle_append, render_append (stays _ staysUpper) (stays _ staysLower)]

theorem Converter.convert_of_parse (c : Converter) {dialect : Dialect} (moduleName : String)
    {source : String} {statements : List Statement}
    (parsed : (parse dialect source).result = .ok statements) :
    (c.convert dialect moduleName source).outcome.result = .ok (c.emit moduleName statements).1 ∧
      (c.convert dialect moduleName source).converter = (c.emit moduleName statements).2 := by
  simp only [convert, parsed, and_self]

/-- Conversion is compositional: a text whose lines are those of two others with an empty line between
them, each with a declaration and the first with no annotation that waits at its end, gives the carrier
texts of the two, one line after the other, and leaves the converter as converting them in turn does.
There is such a text for any two. -/
theorem parts_converted_in_turn (c : Converter) (dialect : Dialect) (moduleName upper lower : String)
    (upperTree lowerTree : List Statement) (silent : c.options.addModule = false)
    (readUpper : (parse dialect upper).result = .ok upperTree)
    (readLower : (parse dialect lower).result = .ok lowerTree)
    (declaresUpper : ∃ statement ∈ upperTree, statement.comment? = none)
    (declaresLower : ∃ statement ∈ lowerTree, statement.comment? = none)
    (free : pendingAfter dialect (Text.lines upper.toList) = []) :
    let lines := Text.lines upper.toList ++ [[]] ++ Text.lines lower.toList
    let afterUpper := c.convert dialect moduleName upper
    let afterLower := afterUpper.converter.convert dialect moduleName lower
    (∃ whole : String, Text.lines whole.toList = lines) ∧
    ∀ whole : String, Text.lines whole.toList = lines →
      ∃ first second, afterUpper.outcome.result = .ok first ∧ afterLower.outcome.result = .ok second ∧
        (c.convert dialect moduleName whole).outcome.result = .ok (first ++ "\n" ++ second) ∧
        (c.convert dialect moduleName whole).converter = afterLower.converter := by
  intro lines afterUpper afterLower
  refine ⟨⟨String.ofList (Text.ofLines lines), ?_⟩, ?_⟩
  · rw [String.toList_ofList]
    apply Text.lines_ofLines
    intro line member
    rcases List.mem_append.mp member with member | member
    · rcases List.mem_append.mp member with member | member
      · exact Text.lines_notMem member
      · simp [List.mem_singleton.mp member]
    · exact Text.lines_notMem member
  · intro whole same
    have read : (parse dialect whole).result =
        .ok (upperTree ++ lowerTree.map (Statement.shift ((Text.lines upper.toList).length + 1))) := by
      rw [parse, same]
      exact readLines_append_empty readUpper free readLower
    have above : StandBefore (Text.lines upper.toList).length upperTree :=
      standBefore_of_read readUpper
    obtain ⟨textUpper, stateUpper⟩ := c.convert_of_parse moduleName readUpper
    obtain ⟨textLower, stateLower⟩ := afterUpper.converter.convert_of_parse moduleName readLower
    obtain ⟨text, state⟩ := c.convert_of_parse moduleName read
    rw [c.emit_below silent moduleName above declaresUpper declaresLower] at text state
    refine ⟨_, _, textUpper, textLower, ?_, ?_⟩
    · rw [text, ← stateUpper]
    · rw [state, ← stateUpper]
      exact stateLower.symm

/-- A namespace that is opened again below the comment at the end of the text above. -/
theorem namespace_reopened_in_turn :
    let c : Converter := { options := { addModule := false } }
    let upper := "' up\nnamespace up.b\nsub f()\nend sub\nend namespace\n' end"
    let lower := "namespace Up ' low\nend namespace\n"
    let afterUpper := c.convert .brightScript "m" upper
    ∃ first, afterUpper.outcome.result = .ok first ∧
      (afterUpper.converter.convert .brightScript "m" lower).outcome.result = .ok "" ∧
      (c.convert .brightScript "m" (upper ++ "\n\n" ++ lower)).outcome.result =
        .ok (first ++ "\n") := by
  intro c upper lower afterUpper
  have declares : ∀ source ∈ [upper, lower], ∃ tree, (parse .brightScript source).result = .ok tree ∧
      ∃ statement ∈ tree, statement.comment? = none := by
    intro source listed
    have found : ((parse .brightScript source).result.toOption.any fun tree =>
        tree.any fun statement => statement.comment? == none) = true := by
      revert source
      decide +kernel
    cases parsed : (parse .brightScript source).result with
    | error e =>
      rw [parsed] at found
      cases found
    | ok tree =>
      rw [parsed] at found
      exact ⟨tree, rfl, by simpa [Except.toOption] using found⟩
  obtain ⟨upperTree, readUpper, declaresUpper⟩ := declares upper (by simp)
  obtain ⟨lowerTree, readLower, declaresLower⟩ := declares lower (by simp)
  obtain ⟨-, each⟩ := parts_converted_in_turn c .brightScript "m" upper lower upperTree lowerTree rfl
    readUpper readLower declaresUpper declaresLower (by decide +kernel)
  obtain ⟨first, second, textUpper, textLower, text, -⟩ :=
    each (upper ++ "\n\n" ++ lower) (by decide +kernel)
  have empty : (afterUpper.converter.convert .brightScript "m" lower).outcome.result = .ok "" := by
    decide +kernel
  rw [empty] at textLower
  cases textLower
  exact ⟨first, textUpper, empty, by simpa using text⟩

end BrightDoc
