import BrightDoc.Proofs.Reader.Marks
import BrightDoc.Proofs.Reader.Nesting

/-! # Parsed trees are arranged as their text is

The two invariants of the reader at the end of a text, for every list of siblings of its tree. -/

namespace BrightDoc

variable {dialect : Dialect}

/-- A list of siblings stands in the text: in order, inside the declaration whose body it is, its
comments and declarations each in their place, the annotations of a declaration above it one after
the other. -/
structure Arranged (lines : List (List Char)) (owner : Option (Header × Placement))
    (siblings : List Outline) : Prop where
  ordered : siblings.IsChain (Outline.Follows lines)
  enclosed : ∀ found ∈ owner, found.2.Encloses lines siblings
  comments : ∀ c, .comment c ∈ siblings → c.PlacedIn lines
  declarations : ∀ header placement body, .decl header placement body ∈ siblings →
    header.PlacedAt lines placement ∧ placement.marks.Pairwise (· < ·)

/-- The annotations of all declarations in some nodes. -/
def annotationsOf (nodes : List Outline) : List Annotation :=
  (declarationsOf nodes).flatMap fun found => found.2.annotations

/-- What holds of the outline of every text that is read. -/
structure Outlined (lines : List (List Char)) (roots : List Outline) : Prop where
  placed : ∀ node ∈ roots, node.Placed lines
  ordered : roots.IsChain (Outline.Follows lines)
  increasing : (marksOf roots).Pairwise (· < ·)

theorem outlined_of_readLines {lines : List (List Char)} {statements : List Statement}
    (read : (readLines dialect lines).result = .ok statements) :
    Outlined lines (outlines statements) := by
  obtain ⟨t, read, finished⟩ := readLines_ok read
  have levels := ReaderState.finish_ok finished
  obtain ⟨closed, free⟩ := nested_closeRun (nested_of_read read)
  have fits := closed.open_levels free
  rw [levels] at fits
  have marked := (marked_of_read read).increasing
  rw [← marks_closeRun, Sketch.marks, levels] at marked
  refine ⟨?_, ?_, ?_⟩
  · intro node member
    exact fits.1.placed node (List.mem_reverse.mpr member)
  · have ordered := fits.1.ordered
    rw [List.reverse_reverse] at ordered
    exact ordered
  · have sublist : (marksOf (outlines statements)).Sublist
        (levelMarks [⟨none, (outlines statements).reverse⟩]) := by
      rw [levelMarks, List.reverse_reverse]
      exact List.sublist_append_right _ _
    exact (marked.sublist (List.sublist_append_left _ _)).sublist sublist

theorem outlined_of_parse {dialect : Dialect} {source : String} {statements : List Statement}
    (parsed : (parse dialect source).result = .ok statements) :
    Outlined (Text.lines source.toList) (outlines statements) :=
  outlined_of_readLines parsed

section Outlined

variable {lines : List (List Char)} {roots : List Outline}

/-- Every list of siblings is in order, inside its declaration, and made of placed nodes. -/
theorem Outlined.siblings (outlined : Outlined lines roots) {owner : Option (Header × Placement)}
    {siblings : List Outline} (reached : SiblingList roots owner siblings) :
    siblings.IsChain (Outline.Follows lines) ∧ (∀ found ∈ owner, found.2.Encloses lines siblings) ∧
      ∀ node ∈ siblings, node.Placed lines := by
  induction reached with
  | root =>
    refine ⟨outlined.ordered, ?_, outlined.placed⟩
    intro found isOwner
    cases isOwner
  | body outer member ih =>
    cases ih.2.2 _ member with
    | decl placed ordered enclosed inner =>
      refine ⟨ordered, ?_, inner⟩
      intro found isOwner
      cases isOwner
      exact enclosed

theorem Outlined.declared (outlined : Outlined lines roots) {found : Header × Placement}
    (inside : found ∈ declarationsOf roots) : found.1.PlacedAt lines found.2 := by
  obtain ⟨node, member, inside⟩ := exists_of_mem_declarationsOf inside
  exact (outlined.placed node member).declarations found inside

/-- The marks of a declaration are some of the marks of its outline. -/
theorem marks_sublist {found : Header × Placement} (member : found ∈ declarationsOf roots) :
    found.2.marks.Sublist (marksOf roots) := by
  rw [marksOf]
  generalize declarationsOf roots = declarations at member
  induction declarations with
  | nil => cases member
  | cons first more ih =>
    rw [List.flatMap_cons]
    rcases List.mem_cons.mp member with rfl | member
    · exact List.sublist_append_left _ _
    · exact (ih member).trans (List.sublist_append_right _ _)

theorem annotationsOf_sublist (nodes : List Outline) :
    ((annotationsOf nodes).map fun a => a.range.start.line).Sublist (marksOf nodes) := by
  rw [annotationsOf, marksOf]
  induction declarationsOf nodes with
  | nil => exact List.Sublist.refl _
  | cons first more ih =>
    rw [List.flatMap_cons, List.flatMap_cons, List.map_append]
    exact (List.sublist_append_left _ _).append ih

end Outlined

/-- Source ranges of a parsed tree are well nested: every list of siblings is arranged as the lines of
the source are, and no line gives two annotations. -/
theorem parsed_siblings_arranged (dialect : Dialect) (source : String) (statements : List Statement)
    (parsed : (parse dialect source).result = .ok statements) :
    (∀ owner siblings, SiblingList (outlines statements) owner siblings →
      Arranged (Text.lines source.toList) owner siblings) ∧
    ((annotationsOf (outlines statements)).map fun a => a.range.start.line).Nodup := by
  have outlined := outlined_of_parse parsed
  refine ⟨?_, ?_⟩
  · intro owner siblings reached
    obtain ⟨ordered, enclosed, placed⟩ := outlined.siblings reached
    refine ⟨ordered, enclosed, ?_, ?_⟩
    · intro c member
      cases placed _ member with
      | comment commented => exact commented
    · intro header placement body member
      have inside := reached.declarations_subset _ (mem_declarationsOf member).1
      exact ⟨outlined.declared inside, outlined.increasing.sublist (marks_sublist inside)⟩
  · have increasing := outlined.increasing.sublist (annotationsOf_sublist (outlines statements))
    exact increasing.imp Nat.ne_of_lt

/-- An annotated class with comments after its header and after a field, in a namespace. -/
theorem annotated_class_arranged :
    let source := "namespace a.b ' ns\n@one\n  @two\nclass C ' c\n ' é\n x = \"'\" ' f\nend class\n" ++
      "end namespace"
    ∃ statements, (parse .brighterScript source).result = .ok statements ∧
      (annotationsOf (outlines statements)).length = 2 ∧
      Arranged (Text.lines source.toList) none (outlines statements) := by
  intro source
  have run : (parse .brighterScript source).result.toOption.map
      (fun statements => (annotationsOf (outlines statements)).length) = some 2 := by decide +kernel
  cases parsed : (parse .brighterScript source).result with
  | error e =>
    rw [parsed] at run
    cases run
  | ok statements =>
    rw [parsed] at run
    have arranged := (parsed_siblings_arranged .brighterScript source statements parsed).1
    exact ⟨statements, rfl, Option.some.inj run, arranged none _ .root⟩

end BrightDoc
