import BrightDoc.Proofs.Carrier.Declarations

/-! # The blocks of a tree

The entries of a tree of statements are intact unless a default, or the name of the module, breaks a
block; it makes no difference which namespaces have been declared before, as their own blocks are
always intact. -/

namespace BrightDoc

/-- Whether the statement is a member of the module of its file, in no namespace. -/
def Statement.isModuleMember : Statement → Bool
  | comment _ | namespaceDecl _ _ => false
  | _ => true

end BrightDoc

namespace BrightDoc.Carrier

open BrightDoc.Text BrightDoc.Doc
open BrightDoc.Line (Plain)

namespace Entry

/-- All pieces of the entry are intact. -/
def Intact (entry : Entry) : Prop :=
  ∀ p ∈ entry.pieces, p.Intact

/-- The entry may be left out without any difference: it is not that of a module, and intact if it is
that of a namespace. -/
def IsSteady : Entry → Prop
  | moduleBlock _ => False
  | namespaceBlock path body stub => (namespaceBlock path body stub).Intact
  | declaration _ _ | nothing => True

/-- An entry of proper pieces that may be left out. -/
structure Proper (entry : Entry) : Prop where
  pieces : ∀ p ∈ entry.pieces, p.Proper
  steady : entry.IsSteady

end Entry

/-- When some entries are intact. -/
abbrev EntriesIff (P : Prop) (entries : List Entry) : Prop :=
  IntactIff Entry.Proper Entry.Intact P entries

theorem entriesIff_declaration {P : Prop} {ps : List Piece} (iff : PiecesIff P ps)
    (space : String) : EntriesIff P [.declaration space ps] :=
  .single ⟨iff.proper, trivial⟩ iff.intact

theorem entriesIff_nothing : EntriesIff True [.nothing] := by
  have iff : PiecesIff True [.code ""] := piecesIff_code [] (Or.inl rfl) (by decide) (by decide)
  exact .single ⟨iff.proper, trivial⟩ iff.intact

theorem entriesIff_orNothing {P : Prop} {entries : List Entry} (iff : EntriesIff P entries) :
    EntriesIff P (orNothing entries) := by
  unfold orNothing
  split
  · rename_i empty
    rw [List.isEmpty_iff.mp empty] at iff
    exact entriesIff_nothing.congr (iff_of_true trivial (iff.intact.mp (by simp)))
  · exact iff

section Namespaces

variable (escape : Bool) (comment : Option Comment) {scope : Scope}

theorem plain_chainFrom {chain : String} (plain : Plain chain.toList) {parts : List String}
    (each : ∀ part ∈ parts, Plain part.toList) :
    ∀ path ∈ chainFrom chain parts, Plain path.toList := by
  induction parts generalizing chain with
  | nil => simp [chainFrom]
  | cons part more ih =>
    rw [List.forall_mem_cons] at each
    have next : Plain (if chain = "" then part else chain ++ "." ++ part).toList := by
      split
      · exact each.1
      · exact plain_dotted plain each.1
    rw [chainFrom, List.forall_mem_cons]
    exact ⟨next, ih next each.2⟩

theorem plain_chain {name : String} (plain : Plain name.toList) :
    ∀ path ∈ chain name, Plain path.toList := by
  apply plain_chainFrom (by simp [Plain])
  intro part member
  obtain ⟨piece, inside, rfl⟩ := List.mem_map.mp member
  rw [String.toList_ofList]
  intro c inPiece
  exact plain c ((infix_of_mem_pieces inside).1.subset inPiece)

theorem namespaceEntry_iff {path : String} (plain : Plain path.toList) (isRoot : Bool) :
    EntriesIff True [namespaceEntry escape comment isRoot path] := by
  have lines : ∀ s ∈ linesOf escape comment, DocLine s := fun s member => docLine_linesOf member
  have global : BodyIff True [" * @global"] := bodyIff_docLine (by decide)
  have named : BodyIff True [" * @namespace " ++ replaceChar '.' '/' path] :=
    bodyIff_docLine (docLine_append (by decide) (cleanText_replaceChar plain)
      ⟨" * @namespace".toList, rfl⟩)
  have aliased : BodyIff True (if path.toList.contains '.' then [" * @alias " ++ path] else []) := by
    split
    · exact bodyIff_docLine (docLine_append (by decide) (cleanText_of_plain plain)
        ⟨" * @alias".toList, rfl⟩)
    · exact .nil trivial
  have block := piecesIff_block ((bodyIff_docLines lines).append (global.cons (named.cons aliased)))
  let lead := if isRoot then "var " else ""
  have code : PiecesIff True [.code (lead ++ path ++ " = \x7b\x7d;\n")] := by
    have leadPlain : Plain lead.toList := by
      dsimp only [lead]
      split <;> decide
    have start := plain_append leadPlain plain
    apply piecesIff_code (lead.toList ++ path.toList ++ " = \x7b\x7d;".toList)
    · right
      simp
    · rw [List.mem_append, not_or]
      exact ⟨feedless_of_plain start, by decide⟩
    · exact head?_append_ne start (by decide)
  have whole : PiecesIff True (namespaceEntry escape comment isRoot path).pieces :=
    (block.cons code).congr (by simp only [and_true])
  exact .single ⟨whole.proper, whole.intact.mpr trivial⟩ whole.intact

theorem namespaceEntries_iff (sound : scope.IsSound) {name : String} (plain : Plain name.toList) :
    EntriesIff True (namespaceEntries escape scope comment name) := by
  apply IntactIff.map
  intro part inside
  obtain ⟨-, -, same⟩ := List.mem_zipIdx inside
  have member : part.1 ∈ chain name := same ▸ List.getElem_mem _
  exact namespaceEntry_iff escape comment (plain_pathTo sound (plain_chain plain _ member)) _

theorem scope_fits_inside {head : NamespaceHead} (plain : PlainName head.name) :
    Scope.Fits { scope with inSpace := scope.pathTo head.name } := by
  intro outside
  exfalso
  dsimp only at outside
  unfold Scope.pathTo at outside
  split at outside
  · exact plain.2 outside
  · have parts := congrArg String.toList outside
    simp at parts

end Namespaces

section Trees

variable (escape : Bool)

mutual

/-- The entries of a statement are intact exactly if no default in it closes a block, and the name of
the module fits, should the statement be a member of it. -/
theorem planStatement_iff {scope : Scope} (sound : scope.IsSound) (comments : List Comment) :
    (statement : Statement) → statement.outline.All Header.IsPlain →
      EntriesIff
        (statement.outline.All Header.Harmless ∧ (statement.isModuleMember = true → scope.Fits))
        (planStatement escape scope comments statement)
  | .comment c, _ => .nil ⟨all_comment c, by simp [Statement.isModuleMember]⟩
  | .function f, plain => by
    rw [Statement.outline, all_leaf] at plain ⊢
    rw [Header.harmless_iff rfl, planStatement]
    apply entriesIff_declaration
    exact (functionPieces_iff escape _ sound plain).congr (by simp [Statement.isModuleMember])
  | .classDecl c, plain => by
    rw [Statement.outline, all_decl, List.forall_mem_map] at plain ⊢
    rw [and_iff_right (Header.harmless_of_none rfl), planStatement]
    apply entriesIff_declaration
    exact (classPieces_iff escape _ sound plain.1 plain.2).congr
      (by simp [Statement.isModuleMember])
  | .interfaceDecl i, plain => by
    rw [Statement.outline, all_decl, List.forall_mem_map] at plain ⊢
    rw [and_iff_right (Header.harmless_of_none rfl), planStatement]
    apply entriesIff_declaration
    exact (interfacePieces_iff escape _ sound plain.1 plain.2).congr
      (by simp [Statement.isModuleMember])
  | .enumDecl e, plain => by
    rw [Statement.outline, all_decl, List.forall_mem_map] at plain ⊢
    have members : ∀ item ∈ e.body, item.outline.All Header.Harmless := by
      intro item inside
      cases item with
      | comment c => exact all_comment c
      | member m => exact all_leaf.mpr (Header.harmless_of_none rfl)
    rw [and_iff_right ⟨Header.harmless_of_none rfl, members⟩, planStatement]
    apply entriesIff_declaration
    exact (enumPieces_iff escape _ sound plain.1 plain.2).congr
      (by simp [Statement.isModuleMember])
  | .constDecl c, plain => by
    rw [Statement.outline, all_leaf] at plain ⊢
    rw [and_iff_right (Header.harmless_of_none rfl), planStatement]
    apply entriesIff_declaration
    exact (constPieces_iff escape _ sound plain).congr (by simp [Statement.isModuleMember])
  | .namespaceDecl head body, plain => by
    rw [Statement.outline, all_decl] at plain ⊢
    rw [and_iff_right (Header.harmless_of_none rfl), planStatement]
    let inner : Scope := { scope with inSpace := scope.pathTo head.name }
    have innerSound : inner.IsSound := ⟨plain_pathTo sound plain.1.1, sound.safe⟩
    have inside := entriesIff_orNothing
      (planEach_iff innerSound (body.filterMap Statement.comment?) body plain.2)
    have opened := namespaceEntries_iff escape (head.placement.comment? comments) sound plain.1.1
    apply (opened.append inside).congr
    rw [true_and, and_iff_left fun _ _ _ => scope_fits_inside plain.1]
    exact (and_iff_left (by simp [Statement.isModuleMember])).symm

/-- The entries of some statements. -/
theorem planEach_iff {scope : Scope} (sound : scope.IsSound) (comments : List Comment) :
    (statements : List Statement) → (∀ node ∈ outlines statements, node.All Header.IsPlain) →
      EntriesIff
        ((∀ node ∈ outlines statements, node.All Header.Harmless) ∧
          ∀ statement ∈ statements, statement.isModuleMember = true → scope.Fits)
        (planEach escape scope comments statements)
  | [], _ => .nil ⟨by simp [outlines], by simp⟩
  | statement :: more, plain => by
    rw [outlines, List.forall_mem_cons] at plain
    have whole := (planStatement_iff sound comments statement plain.1).append
      (planEach_iff sound comments more plain.2)
    rw [planEach, outlines, List.forall_mem_cons, List.forall_mem_cons]
    exact whole.congr and_and_and_comm

end

end Trees

/-- The entries that stay are some of those that were there, and intact exactly if all are. -/
theorem settle_iff {P : Prop} {entries : List Entry} (iff : EntriesIff P entries)
    (declared : Declared) : EntriesIff P (settle declared entries).1 := by
  induction entries generalizing P declared with
  | nil => exact iff
  | cons entry more ih =>
    have proper := iff.proper entry List.mem_cons_self
    have rest : EntriesIff (∀ e ∈ more, e.Intact) more :=
      ⟨fun e member => iff.proper e (List.mem_cons_of_mem _ member), Iff.rfl⟩
    have here : EntriesIff entry.Intact [entry] := .single proper Iff.rfl
    have split : P ↔ entry.Intact ∧ ∀ e ∈ more, e.Intact := by
      rw [← iff.intact, List.forall_mem_cons]
    cases entry with
    | moduleBlock name => exact proper.steady.elim
    | namespaceBlock path body stub =>
      rw [settle]
      dsimp only
      split
      · have intact : (Entry.namespaceBlock path body stub).Intact := proper.steady
        exact (ih rest _).congr (by rw [split, and_iff_right intact])
      · exact (here.cons (ih rest _)).congr split.symm
    | declaration space ps => exact (here.cons (ih rest declared)).congr split.symm
    | nothing => exact (here.cons (ih rest declared)).congr split.symm

end BrightDoc.Carrier
