import BrightDoc.Converter
import BrightDoc.Proofs.Carrier.Entries
import BrightDoc.Proofs.Files.Paths

/-! # When the blocks of a converted file are whole

Comments are cleaned before they come into a block, and names and types are plain. What is left are
the defaults of parameters, which are shown as they are written, and the name of the module, which a
file name may give line feeds to: the blocks of a converted file are whole exactly if these two are
harmless. -/

namespace BrightDoc

open BrightDoc.Text BrightDoc.Doc BrightDoc.Carrier

theorem starless_namedModule? {source name : String} (found : namedModule? source = some name) :
    '*' ∉ name.toList := by
  obtain ⟨part, -, here⟩ := leftmost?_eq_some found
  obtain ⟨rest, -, named⟩ := Option.bind_eq_some_iff.mp here
  split at named
  · cases named
  · cases named
    rw [String.toList_ofList]
    intro star
    have kept := List.mem_takeWhile_imp star
    simp at kept

/-- A module cannot close a block: it is named without asterisks, or after a file. -/
theorem moduleSafe_ownModule (options : Options) (f : SourceFile) :
    ModuleSafe (f.ownModule options) := by
  unfold SourceFile.ownModule
  split
  · split
    · rename_i name found
      exact Or.inl (starless_namedModule? found)
    · cases found : Path.stem? f.name with
      | none => exact Or.inl (by simp)
      | some stem =>
        have slashless := Path.stem?_slashless found
        rw [Option.map_some, Option.getD_some]
        refine Or.inr ⟨?_, ?_⟩
        · intro slash
          rcases mem_replaceChar slash with ⟨underscore, -⟩ | ⟨-, member⟩
          · cases underscore
          · exact slashless member
        · intro dot
          rcases mem_replaceChar dot with ⟨underscore, -⟩ | ⟨notDot, -⟩
          · cases underscore
          · exact notDot rfl
  · exact Or.inl (by simp)

theorem piecesIff_entries {P : Prop} {entries : List Entry} (iff : EntriesIff P entries) :
    PiecesIff P (entries.flatMap Entry.pieces) := by
  refine ⟨?_, ?_⟩
  · rw [List.forall_mem_flatMap]
    exact fun entry member => (iff.proper entry member).pieces
  · rw [List.forall_mem_flatMap]
    exact iff.intact

theorem piecesIff_moduleBlock {name : String} (safe : ModuleSafe name) :
    PiecesIff (ModuleFits name) (Entry.moduleBlock name).pieces := by
  obtain ⟨iff, notCloser⟩ := moduleLine_isBodyText_iff safe
    (show " * @module ".toList = " * @module".toList ++ [' '] from rfl)
    (by decide) (by decide) (by decide)
  exact piecesIff_block (.single notCloser iff)

theorem moduleFits_empty : ModuleFits "" := by
  unfold ModuleFits
  decide

namespace Converter

/-- The name of the module stands in the text of the statements: in a block of its own, unless it has
been declared, and in those of its members. -/
def ShowsModule (c : Converter) (moduleName : String) (statements : List Statement) : Prop :=
  (c.options.addModule = true ∧ c.declared.hasModule moduleName = false) ∨
    ∃ statement ∈ statements, statement.isModuleMember = true

/-- What stays of the entries of a tree, with the block of the module before them. -/
theorem piecesIff_settled (c : Converter) {moduleName : String} (safe : ModuleSafe moduleName)
    {statements : List Statement} {P : Prop}
    (planned : EntriesIff P
      (plan c.options.escapeMarkup { inModule := moduleName } statements)) :
    PiecesIff
      ((c.options.addModule = true ∧ c.declared.hasModule moduleName = false →
        ModuleFits moduleName) ∧ P)
      ((settle c.declared (entries c.options moduleName statements)).1.flatMap Entry.pieces) := by
  have rest : ∀ declared : Declared, PiecesIff P ((settle declared
      (plan c.options.escapeMarkup { inModule := moduleName } statements)).1.flatMap Entry.pieces) :=
    fun declared => piecesIff_entries (settle_iff planned declared)
  unfold entries
  split
  · rename_i shown
    rw [Bool.and_eq_true] at shown
    rw [List.singleton_append, settle]
    dsimp only
    split
    · rename_i known
      have empty := piecesIff_entries entriesIff_nothing
      refine (empty.append (rest _)).congr (and_congr_left' (iff_of_true trivial ?_))
      rintro ⟨-, unknown⟩
      rw [known] at unknown
      cases unknown
    · rename_i unknown
      refine ((piecesIff_moduleBlock safe).append (rest _)).congr (and_congr_left' ?_)
      exact (imp_iff_right ⟨shown.1, by simpa using unknown⟩).symm
  · rename_i hidden
    rw [List.nil_append]
    refine (rest c.declared).congr (iff_and_self.mpr fun _ => ?_)
    rintro ⟨added, -⟩
    have empty : moduleName = "" := by simpa [added] using hidden
    rw [empty]
    exact moduleFits_empty

theorem blocksIntact_emit_iff (c : Converter) {moduleName : String} (safe : ModuleSafe moduleName)
    {statements : List Statement}
    (plain : ∀ found ∈ declarationsOf (outlines statements), found.1.IsPlain) :
    BlocksIntact (c.emit moduleName statements).1 ↔
      (∀ found ∈ declarationsOf (outlines statements), found.1.Harmless) ∧
        (c.ShowsModule moduleName statements → ModuleFits moduleName) := by
  let scope : Scope := { inModule := moduleName }
  have sound : scope.IsSound := ⟨by simp [scope, Line.Plain], safe⟩
  have fits : scope.Fits ↔ ModuleFits moduleName := ⟨fun fits => fits rfl, fun fits _ => fits⟩
  have planned := entriesIff_orNothing <| planEach_iff c.options.escapeMarkup sound
    (statements.filterMap Statement.comment?) statements (forall_declarationsOf.mp plain)
  rw [fits, ← forall_declarationsOf] at planned
  have whole := c.piecesIff_settled safe planned
  have members : (∀ statement ∈ statements, statement.isModuleMember = true →
      ModuleFits moduleName) ↔
      ((∃ statement ∈ statements, statement.isModuleMember = true) → ModuleFits moduleName) := by
    simp only [exists_imp, and_imp]
  rw [show (c.emit moduleName statements).1 = renderPieces
      ((settle c.declared (entries c.options moduleName statements)).1.flatMap Entry.pieces) from rfl,
    blocksIntact_renderPieces_iff whole.proper, whole.intact, members, ShowsModule, or_imp]
  exact and_left_comm

end Converter

/-- The documentation blocks of a converted file are whole exactly if no default of a parameter closes
a block, and the name of the module, where it is shown, has no line that breaks one. -/
theorem converted_blocks_intact_iff (c : Converter) (f : SourceFile) (text : String)
    (converted : (c.convertFile f).outcome.result = .ok text) :
    ∃ statements, (parse f.dialect f.text).result = .ok statements ∧
      (BlocksIntact text ↔
        (∀ found ∈ declarationsOf (outlines statements), ∀ signature ∈ found.1.signature?,
          signature.DefaultsCloserless) ∧
        (c.ShowsModule (f.ownModule c.options) statements →
          ModuleFits (f.ownModule c.options))) := by
  rw [Converter.convertFile, Converter.convert] at converted
  split at converted
  · rename_i statements parsed
    cases converted
    exact ⟨statements, parsed, c.blocksIntact_emit_iff (moduleSafe_ownModule c.options f)
      (isPlain_of_parse parsed)⟩
  · cases converted

/-- A comment that would close its block does not. -/
theorem closing_comment_stays_inside :
    let file : SourceFile :=
      { name := "a.brs", text := "' one */ two\nfunction f(x = 1)\nend function" }
    ∃ text, (Converter.convertFile {} file).outcome.result = .ok text ∧ BlocksIntact text ∧
      ∃ statements, (parse file.dialect file.text).result = .ok statements ∧
        ∀ found ∈ declarationsOf (outlines statements), ∀ signature ∈ found.1.signature?,
          signature.DefaultsCloserless := by
  intro file
  let text := "/**\n * @module a\n */\n/**\n * one two\n * @function\n" ++
    " * @param \x7binteger\x7d [x=1]\n * @memberof! module:a\n" ++
    " * @returns \x7bdynamic\x7d\n */\nfunction f (x) \x7b \x7d;\n"
  have converted : (Converter.convertFile {} file).outcome.result = .ok text := by decide +kernel
  have intact : BlocksIntact text := by decide +kernel
  obtain ⟨statements, parsed, iff⟩ := converted_blocks_intact_iff {} file text converted
  exact ⟨text, converted, intact, statements, parsed, (iff.mp intact).1⟩

/-- A default that closes a block does close it. -/
theorem closing_default_breaks_block :
    let file : SourceFile := { name := "a.brs", text := "function f(x = \"*/\")\nend function" }
    ∃ text, (Converter.convertFile {} file).outcome.result = .ok text ∧ ¬ BlocksIntact text := by
  intro file
  let text := "/**\n * @module a\n */\n/**\n * @function\n" ++
    " * @param \x7bstring\x7d [x=\"*/\"]\n * @memberof! module:a\n" ++
    " * @returns \x7bdynamic\x7d\n */\nfunction f (x) \x7b \x7d;\n"
  have converted : (Converter.convertFile {} file).outcome.result = .ok text := by decide +kernel
  exact ⟨text, converted, by decide +kernel⟩

-- The name of a file may hold a line feed.
example :
    (Converter.convertFile {} { name := "a\nb.bs", text := "" }).outcome.result =
      .ok "/**\n * @module a\nb\n */\n" ∧
    ¬ BlocksIntact "/**\n * @module a\nb\n */\n" := by
  decide +kernel

end BrightDoc
