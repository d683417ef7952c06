import BrightDoc.Proofs.Carrier.Pieces

/-! # The blocks of declarations

What stands for a declaration is intact unless a default of its parameters, or the name of the module
that it is a member of, breaks a block. -/

namespace BrightDoc

/-- No default that the header shows closes a documentation block. -/
def Header.Harmless (header : Header) : Prop :=
  ∀ signature ∈ header.signature?, signature.DefaultsCloserless

theorem Header.harmless_of_none {header : Header} (unsigned : header.signature? = none) :
    header.Harmless := by
  intro signature found
  rw [unsigned] at found
  cases found

theorem Header.harmless_iff {header : Header} {signature : Signature}
    (signed : header.signature? = some signature) :
    header.Harmless ↔ signature.DefaultsCloserless := by
  unfold Header.Harmless
  rw [signed]
  constructor
  · intro harmless
    exact harmless signature rfl
  · intro closerless other found
    cases found
    exact closerless

end BrightDoc

namespace BrightDoc.Carrier

open BrightDoc.Text BrightDoc.Doc
open BrightDoc.Line (Plain)

/-- A scope with a plain namespace, in a module whose name cannot close a block. -/
structure Scope.IsSound (scope : Scope) : Prop where
  space : Plain scope.inSpace.toList
  safe : ModuleSafe scope.inModule

/-- The tag of the scope gives body lines. A namespace always does. -/
def Scope.Fits (scope : Scope) : Prop :=
  scope.inSpace = "" → ModuleFits scope.inModule

theorem plain_append {first second : List Char} (left : Plain first) (right : Plain second) :
    Plain (first ++ second) := by
  intro c member
  rcases List.mem_append.mp member with member | member
  · exact left c member
  · exact right c member

theorem plain_dotted {first second : String} (left : Plain first.toList)
    (right : Plain second.toList) : Plain (first ++ "." ++ second).toList := by
  rw [String.toList_append, String.toList_append]
  have dot : Plain ".".toList := by decide
  exact plain_append (plain_append left dot) right

theorem plain_pathTo {scope : Scope} (sound : scope.IsSound) {name : String}
    (plain : Plain name.toList) : Plain (scope.pathTo name).toList := by
  unfold Scope.pathTo
  split
  · exact plain
  · exact plain_dotted sound.space plain

theorem bodyIff_membership {scope : Scope} (sound : scope.IsSound) :
    BodyIff scope.Fits scope.membership := by
  unfold Scope.membership
  split
  · rename_i inside
    apply IntactIff.congr (bodyIff_docLines _)
    · exact (iff_true_intro fun outside => absurd outside inside).symm
    · intro s member
      rw [List.mem_singleton.mp member]
      exact docLine_append (by decide) (cleanText_replaceChar sound.space)
        ⟨" * @memberof!".toList, rfl⟩
  · rename_i outside
    rw [not_not] at outside
    have fits : scope.Fits ↔ ModuleFits scope.inModule :=
      ⟨fun fits => fits outside, fun fits _ => fits⟩
    split
    · obtain ⟨iff, notCloser⟩ := moduleLine_isBodyText_iff sound.safe
        (show " * @memberof! module:".toList = " * @memberof! module".toList ++ [':'] from rfl)
        (by decide) (by decide) (by decide)
      exact .single notCloser (iff.trans fits.symm)
    · rename_i noModule
      rw [not_not] at noModule
      apply IntactIff.congr (bodyIff_docLines (by simp))
      rw [fits, noModule]
      exact (iff_true_intro (by unfold ModuleFits; decide)).symm

theorem piecesIff_binding {scope : Scope} (sound : scope.IsSound) {name : String}
    (plain : Plain name.toList) :
    PiecesIff True ((scope.binding? name).toList.map .code) := by
  have path := plain_pathTo sound plain
  unfold Scope.binding?
  split
  · exact .always (by simp)
  · apply piecesIff_code ((scope.pathTo name).toList ++ (" = " ++ name ++ ";").toList)
    · left
      simp
    · simp [feedless_of_plain path, feedless_of_plain plain]
    · exact head?_append_ne path (by simp)

section Callable

variable (escape : Bool) (comment : Option Comment) {f : FunctionDecl}

/-- The lines of a function's block show defaults in the tags of its parameters only. -/
theorem functionDoc_iff (plain : f.signature.IsPlain) :
    BodyIff f.signature.DefaultsCloserless (FunctionDoc.of escape comment f).head ∧
      BodyIff True [(FunctionDoc.of escape comment f).returns] := by
  have lines : ∀ s ∈ linesOf escape comment, DocLine s := fun s member => docLine_linesOf member
  obtain ⟨left, notCloser, bodies⟩ := takeParams_isBodyText_iff lines plain.params
  have clean := takeReturns_isClean fun line member =>
    ⟨(left line member).feedless, (left line member).closerless⟩
  have comments : ∀ s ∈ (FunctionDoc.of escape comment f).comment, DocLine s :=
    fun s member => left s (List.mem_of_mem_filter member)
  have tag : BodyIff True [" * @function"] := bodyIff_docLine (by decide)
  refine ⟨?_, bodyIff_docLine (docLine_returnsLine plain.returns clean)⟩
  have whole := (bodyIff_docLines comments).append (tag.cons ⟨notCloser, bodies⟩)
  exact whole.congr (by rw [true_and, true_and]; exact Iff.rfl)

theorem functionPieces_iff {scope : Scope} (sound : scope.IsSound) (plain : f.signature.IsPlain) :
    PiecesIff (f.signature.DefaultsCloserless ∧ scope.Fits)
      (functionPieces escape scope comment f) := by
  obtain ⟨head, returns⟩ := functionDoc_iff escape comment plain
  have name := plain.name.1
  have block := (head.append (bodyIff_membership sound)).append returns
  have code : PiecesIff True [stub ("function " ++ f.name ++ " ") f] := by
    apply piecesIff_stub plain.params
    · have feedless := feedless_of_plain name
      simp only [String.toList_append, List.mem_append, not_or]
      exact ⟨⟨by decide, feedless⟩, by decide⟩
    · simp
  have whole := ((piecesIff_block block).cons code).append (piecesIff_binding sound name)
  exact whole.congr (by simp only [and_true])

theorem docLine_accessTag (m : Method) : ∀ s ∈ accessTag m, DocLine s := by
  unfold accessTag
  split
  · decide
  · split <;> decide

theorem docLine_overrideTag (m : Method) : ∀ s ∈ overrideTag m, DocLine s := by
  unfold overrideTag
  split <;> decide

theorem docLine_constructorTags {owner : String} (plain : Plain owner.toList) :
    ∀ s ∈ constructorTags owner, DocLine s := by
  have clean := cleanText_of_plain plain
  unfold constructorTags
  rw [List.forall_mem_cons]
  refine ⟨by decide, ?_⟩
  split
  · simp
  · intro s member
    rw [List.mem_singleton.mp member]
    refine docLine_append (by decide) ⟨?_, ?_⟩ ⟨" * @returns".toList, rfl⟩
    · simp [braced, clean.1]
    · simp [braced, closerless_cons, closerless_append_cons, closerless_nil, clean.2]

theorem methodPieces_iff {owner : String} (ownerPlain : Plain owner.toList) {m : Method}
    (plain : m.function.signature.IsPlain) :
    PiecesIff m.function.signature.DefaultsCloserless (methodPieces escape owner comment m) := by
  obtain ⟨head, returns⟩ := functionDoc_iff escape comment plain
  have tagged := (head.append (bodyIff_docLines (docLine_accessTag m))).append
    (bodyIff_docLines (docLine_overrideTag m))
  have stubIff : ∀ lead : String, '\n' ∉ lead.toList → lead.toList.head? ≠ some '/' →
      PiecesIff True [stub lead m.function] :=
    fun lead => piecesIff_stub plain.params
  unfold methodPieces
  dsimp only
  split
  · have block := tagged.append (bodyIff_docLines (docLine_constructorTags ownerPlain))
    have whole := (piecesIff_block block).cons (stubIff "constructor" (by decide) (by decide))
    exact whole.congr (by simp only [and_true])
  · have code : PiecesIff True [stub (m.function.name ++ " ") m.function] := by
      apply stubIff
      · rw [String.toList_append, List.mem_append, not_or]
        exact ⟨feedless_of_plain plain.name.1, by decide⟩
      · rw [String.toList_append]
        exact head?_append_ne plain.name.1 (by decide)
    have whole := (piecesIff_block (tagged.append returns)).cons code
    exact whole.congr (by simp only [and_true])

theorem interfaceMethodPieces_iff {owner : String} (ownerPlain : Plain owner.toList)
    (plain : f.signature.IsPlain) :
    PiecesIff f.signature.DefaultsCloserless (interfaceMethodPieces escape owner comment f) := by
  obtain ⟨head, returns⟩ := functionDoc_iff escape comment plain
  have code : PiecesIff True [stub (owner ++ ".prototype." ++ f.name ++ " = function") f] := by
    have feedless := feedless_of_plain plain.name.1
    apply piecesIff_stub plain.params
    · simp only [String.toList_append, List.mem_append, not_or]
      exact ⟨⟨⟨feedless_of_plain ownerPlain, by decide⟩, feedless⟩, by decide⟩
    · rw [String.toList_append, String.toList_append, String.toList_append, List.append_assoc,
        List.append_assoc]
      exact head?_append_ne ownerPlain (by simp)
  have whole := (piecesIff_block (head.append returns)).cons code
  exact whole.congr (by simp only [and_true])

end Callable

section Blocks

variable (escape : Bool) (comment : Option Comment) {scope : Scope}

theorem docLine_dropBareExtends : ∀ s ∈ dropBareExtends (linesOf escape comment), DocLine s :=
  fun _ member => docLine_linesOf (List.mem_of_mem_eraseP member)

theorem docLine_extendsTag {parent : Option String} (plain : ∀ token ∈ parent, Plain token.toList) :
    ∀ s ∈ extendsTag parent, DocLine s := by
  intro s member
  obtain ⟨token, isParent, rfl⟩ := List.mem_map.mp member
  have clean := cleanText_of_plain (plain token (Option.mem_toList.mp isParent))
  exact docLine_append (by decide) clean ⟨" * @extends".toList, rfl⟩

theorem docLine_fieldTag (comments : List Comment) {f : Field} (name : Plain f.name.toList)
    (type : ∀ t ∈ f.type, Plain t.name.toList) : ∀ s ∈ fieldTag escape comments f, DocLine s := by
  intro s member
  unfold fieldTag at member
  split at member
  · cases member
  · rw [List.mem_singleton.mp member]
    exact docLine_propertyLine (cleanText_nameOf type) (cleanText_of_plain name)
      (clean_summary escape _)

theorem docLine_interfaceFieldTag (comments : List Comment) {f : InterfaceField}
    (name : Plain f.name.toList) (token : ∀ t ∈ f.typeToken, Plain t.toList) :
    DocLine (interfaceFieldTag escape comments f) := by
  have type : Plain (f.typeToken.getD TypeRef.unknownName).toList := by
    cases written : f.typeToken with
    | none => decide
    | some t => exact token t written
  exact docLine_propertyLine (cleanText_of_plain type) (cleanText_of_plain name)
    (clean_summary escape _)

theorem docLine_classFields (comments : List Comment) {items : List ClassItem}
    (members : ∀ item ∈ items, item.outline.All Header.IsPlain) :
    ∀ s ∈ items.flatMap fun
      | .field f => fieldTag escape comments f
      | _ => [], DocLine s := by
  intro s member
  obtain ⟨item, inside, member⟩ := List.mem_flatMap.mp member
  have plain := members item inside
  cases item with
  | comment c => cases member
  | method m => cases member
  | field f =>
    obtain ⟨name, type⟩ := all_leaf.mp plain
    exact docLine_fieldTag escape comments name type s member

theorem classMethods_iff (comments : List Comment) {owner : String}
    (ownerPlain : Plain owner.toList) {items : List ClassItem}
    (members : ∀ item ∈ items, item.outline.All Header.IsPlain) :
    PiecesIff (∀ item ∈ items, item.outline.All Header.Harmless) (items.flatMap fun
      | .method m => methodPieces escape owner (m.function.placement.comment? comments) m
      | _ => []) := by
  apply IntactIff.flatMap
  intro item inside
  have plain := members item inside
  cases item with
  | comment c => exact .nil (all_comment c)
  | field f => exact .nil (all_leaf.mpr (Header.harmless_of_none rfl))
  | method m =>
    rw [ClassItem.outline, all_leaf, Header.harmless_iff rfl]
    exact methodPieces_iff escape _ ownerPlain (all_leaf.mp plain)

theorem piecesIff_classHead {c : ClassDecl} (name : Plain c.name.toList)
    (parent : ∀ token ∈ c.parent, Plain token.toList) :
    PiecesIff True [.code ("class " ++ c.name ++ (match c.parent with
      | some name => " extends " ++ name
      | none => "") ++ " \x7b\n")] := by
  have written : '\n' ∉ (match c.parent with
      | some name => " extends " ++ name
      | none => "").toList := by
    split
    · rename_i token isParent
      rw [String.toList_append, List.mem_append, not_or]
      exact ⟨by decide, feedless_of_plain (parent token isParent)⟩
    · decide
  generalize (match c.parent with
    | some name => " extends " ++ name
    | none => "") = extended at written
  apply piecesIff_code ("class " ++ c.name ++ extended ++ " \x7b").toList
  · right
    simp
  · simp [written, feedless_of_plain name]
  · simp

theorem classPieces_iff (sound : scope.IsSound) {c : ClassDecl}
    (plain : (Header.classDecl c.name c.parent).IsPlain)
    (members : ∀ item ∈ c.body, item.outline.All Header.IsPlain) :
    PiecesIff ((∀ item ∈ c.body, item.outline.All Header.Harmless) ∧ scope.Fits)
      (classPieces escape scope comment c) := by
  obtain ⟨⟨name, -⟩, parent⟩ := plain
  let comments := c.body.filterMap ClassItem.comment?
  have lines := bodyIff_docLines (docLine_dropBareExtends escape comment)
  have extended := bodyIff_docLines (docLine_extendsTag parent)
  have fields := bodyIff_docLines (docLine_classFields escape comments members)
  have methods := classMethods_iff escape comments (plain_pathTo sound name) members
  have last : PiecesIff True [.code "\x7d\n"] :=
    piecesIff_code ['\x7d'] (Or.inr rfl) (by decide) (by decide)
  have block := ((lines.append extended).append (bodyIff_membership sound)).append fields
  have start := (piecesIff_block block).cons (piecesIff_classHead name parent)
  have whole := (start.append methods).append (last.cons (piecesIff_binding sound name))
  exact whole.congr (by simp only [and_true, true_and]; exact and_comm)

theorem docLine_interfaceFields (comments : List Comment) {items : List InterfaceItem}
    (members : ∀ item ∈ items, item.outline.All Header.IsPlain) :
    ∀ s ∈ items.flatMap fun
      | .field f => [interfaceFieldTag escape comments f]
      | _ => [], DocLine s := by
  intro s member
  obtain ⟨item, inside, member⟩ := List.mem_flatMap.mp member
  have plain := members item inside
  cases item with
  | comment c => cases member
  | method f => cases member
  | field f =>
    obtain ⟨name, token⟩ := all_leaf.mp plain
    rw [List.mem_singleton.mp member]
    exact docLine_interfaceFieldTag escape comments name token

theorem interfaceMethods_iff (comments : List Comment) {owner : String}
    (ownerPlain : Plain owner.toList) {items : List InterfaceItem}
    (members : ∀ item ∈ items, item.outline.All Header.IsPlain) :
    PiecesIff (∀ item ∈ items, item.outline.All Header.Harmless) (items.flatMap fun
      | .method f => interfaceMethodPieces escape owner (f.placement.comment? comments) f
      | _ => []) := by
  apply IntactIff.flatMap
  intro item inside
  have plain := members item inside
  cases item with
  | comment c => exact .nil (all_comment c)
  | field f => exact .nil (all_leaf.mpr (Header.harmless_of_none rfl))
  | method f =>
    rw [InterfaceItem.outline, all_leaf, Header.harmless_iff rfl]
    exact interfaceMethodPieces_iff escape _ ownerPlain (all_leaf.mp plain)

theorem interfacePieces_iff (sound : scope.IsSound) {i : InterfaceDecl}
    (plain : (Header.interfaceDecl i.name i.parent).IsPlain)
    (members : ∀ item ∈ i.body, item.outline.All Header.IsPlain) :
    PiecesIff ((∀ item ∈ i.body, item.outline.All Header.Harmless) ∧ scope.Fits)
      (interfacePieces escape scope comment i) := by
  obtain ⟨⟨name, -⟩, parent⟩ := plain
  let comments := i.body.filterMap InterfaceItem.comment?
  have lines := bodyIff_docLines (docLine_dropBareExtends escape comment)
  have tag : BodyIff True [" * @interface"] := bodyIff_docLine (by decide)
  have extended := tag.cons (bodyIff_docLines (docLine_extendsTag parent))
  have fields := bodyIff_docLines (docLine_interfaceFields escape comments members)
  have methods := interfaceMethods_iff escape comments name members
  have head : PiecesIff True [.code ("function " ++ i.name ++ "() \x7b \x7d;\n")] := by
    apply piecesIff_code ("function " ++ i.name ++ "() \x7b \x7d;").toList
    · right
      simp
    · simp [feedless_of_plain name]
    · simp
  have block := ((lines.append extended).append (bodyIff_membership sound)).append fields
  have start := (piecesIff_block block).cons head
  have whole := (start.append methods).append (piecesIff_binding sound name)
  exact whole.congr (by simp only [and_true, true_and]; exact and_comm)

theorem enumItems_iff {items : List EnumItem}
    (members : ∀ item ∈ items, item.outline.All Header.IsPlain) :
    PiecesIff True (items.map fun
      | .comment c => Piece.block (commentLines escape c)
      | .member m => Piece.code (m.name ++ ": " ++ m.value ++ ",")) := by
  apply IntactIff.map
  intro item inside
  have plain := members item inside
  cases item with
  | comment c =>
    have lines : ∀ s ∈ commentLines escape c, DocLine s := fun s member =>
      docLine_commentLines member
    exact piecesIff_block (bodyIff_docLines lines)
  | member m =>
    obtain ⟨⟨name, -⟩, value⟩ := all_leaf.mp plain
    apply piecesIff_code (m.name.toList ++ (": " ++ m.value ++ ",").toList)
    · left
      simp
    · simp [feedless_of_plain name, value]
    · exact head?_append_ne name (by simp)

theorem enumPieces_iff (sound : scope.IsSound) {e : EnumDecl}
    (plain : (Header.enumDecl e.name).IsPlain)
    (members : ∀ item ∈ e.body, item.outline.All Header.IsPlain) :
    PiecesIff scope.Fits (enumPieces escape scope comment e) := by
  have name := plain.1
  have lines : ∀ s ∈ linesOf escape comment, DocLine s := fun s member => docLine_linesOf member
  have tags : BodyIff True [" * @readonly", " * @enum"] := bodyIff_docLines (by decide)
  have block := piecesIff_block <|
    ((bodyIff_docLines lines).append (bodyIff_membership sound)).append tags
  let target := if scope.inSpace = "" then "var " ++ e.name else scope.pathTo e.name
  have targetPlain : Plain target.toList := by
    dsimp only [target]
    split
    · rw [String.toList_append]
      exact plain_append (by decide) name
    · exact plain_pathTo sound name
  have first : PiecesIff True [.code (target ++ " = \x7b")] := by
    apply piecesIff_code (target.toList ++ " = \x7b".toList)
    · left
      rw [String.toList_append]
    · rw [List.mem_append, not_or]
      exact ⟨feedless_of_plain targetPlain, by decide⟩
    · exact head?_append_ne targetPlain (by decide)
  have last : PiecesIff True [.code "\x7d;"] :=
    piecesIff_code _ (Or.inl rfl) (by decide) (by decide)
  have whole := ((block.cons first).append (enumItems_iff escape members)).append last
  exact whole.congr (by simp only [and_true, true_and])

theorem feedless_constValue {value : Expression} (feedless : '\n' ∉ value.text.toList) :
    '\n' ∉ (match value with
      | .literal text => text
      | .other _ => "\x7b\x7d").toList := by
  cases value with
  | literal text => exact feedless
  | other text =>
    show '\n' ∉ "\x7b\x7d".toList
    decide

theorem constPieces_iff (sound : scope.IsSound) {c : ConstDecl}
    (plain : (Header.constDecl c.name c.value).IsPlain) :
    PiecesIff scope.Fits (constPieces escape scope comment c) := by
  obtain ⟨⟨name, -⟩, feedless⟩ := plain
  have lines : ∀ s ∈ linesOf escape comment, DocLine s := fun s member => docLine_linesOf member
  have tags : BodyIff True [" * @readonly", " * @constant", " * @default"] :=
    bodyIff_docLines (by decide)
  have block := piecesIff_block <|
    ((bodyIff_docLines lines).append (bodyIff_membership sound)).append tags
  have code : ∀ value : String, '\n' ∉ value.toList →
      PiecesIff True [.code ("var " ++ c.name ++ " = " ++ value ++ ";")] := by
    intro value feedless
    apply piecesIff_code _ (Or.inl rfl)
    · simp [feedless, feedless_of_plain name]
    · simp
  have value := code _ (feedless_constValue feedless)
  have whole := (block.cons value).append (piecesIff_binding sound name)
  exact whole.congr (by simp only [and_true, true_and])

end Blocks

end BrightDoc.Carrier
