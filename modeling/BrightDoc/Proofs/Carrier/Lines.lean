import BrightDoc.Carrier.Plan
import BrightDoc.Proofs.Carrier.Blocks
import BrightDoc.Proofs.Doc.Tags
import BrightDoc.Proofs.Reader.Plain

/-! # The lines of documentation blocks

Most lines of a block are body lines whatever the source holds. Two sorts of lines are so only if what
they show allows it: the tag of a parameter, which shows its default, and the tags that show the name
of the module. -/

namespace BrightDoc

open BrightDoc.Text BrightDoc.Doc
open BrightDoc.Line (Plain)

/-- No default in the signature closes a documentation block. -/
def Signature.DefaultsCloserless (s : Signature) : Prop :=
  ∀ p ∈ s.params, ∀ value ∈ p.default, Closerless value.text.toList

/-- The name cannot close a documentation block, even with slashes for its dots. -/
def ModuleSafe (name : String) : Prop :=
  '*' ∉ name.toList ∨ '/' ∉ name.toList ∧ '.' ∉ name.toList

/-- The lines of the name after the first one look like body lines. -/
def ModuleFits (name : String) : Prop :=
  ∀ line ∈ (pieces '\n' name.toList).tail, [' ', '*'] <+: line

end BrightDoc

namespace BrightDoc.Carrier

open BrightDoc.Text BrightDoc.Doc
open BrightDoc.Line (Plain)

theorem cleanText_of_plain {cs : List Char} (plain : Plain cs) : CleanText cs :=
  ⟨fun feed => (plain _ feed).2.2 rfl, closerless_of_notMem_star fun star => (plain _ star).1 rfl⟩

theorem isBodyText_of_docLine {s : String} (line : DocLine s) : IsBodyText s := by
  intro text member
  rw [pieces_of_notMem line.feedless, List.mem_singleton] at member
  rw [member]
  exact ⟨line.starred, line.closerless⟩

theorem closer_notMem_of_isBodyText {s : String} (body : IsBodyText s) :
    closer.toList ∉ pieces '\n' s.toList :=
  fun closes => not_isBodyLine_closer (body _ closes)

theorem closer_notMem_of_docLine {s : String} (line : DocLine s) :
    closer.toList ∉ pieces '\n' s.toList :=
  closer_notMem_of_isBodyText (isBodyText_of_docLine line)

/-- A line with a tag and a clean text after it. -/
theorem docLine_append {lead text : String} (line : DocLine lead)
    (clean : CleanText text.toList) (spaced : ∃ start, lead.toList = start ++ [' ']) :
    DocLine (lead ++ text) := by
  obtain ⟨start, split⟩ := spaced
  refine ⟨?_, ?_, ?_⟩
  · rw [String.toList_append]
    exact line.starred.trans (List.prefix_append _ _)
  · rw [String.toList_append, List.mem_append, not_or]
    exact ⟨line.feedless, clean.1⟩
  · have before := line.closerless
    rw [split, closerless_append_cons (by decide) (by decide)] at before
    rw [String.toList_append, split, List.append_assoc, List.singleton_append,
      closerless_append_cons (by decide) (by decide)]
    exact ⟨before.1, clean.2⟩

section Description

variable {description : Option String}

theorem withDescription_toList (line : String)
    (clean : ∀ text ∈ description, CleanText text.toList) :
    ∃ rest, (withDescription line description).toList = line.toList ++ rest ∧
      (rest = [] ∨ ∃ text, rest = ' ' :: text ∧ CleanText text) := by
  rw [withDescription]
  cases description with
  | none => exact ⟨[], by simp, Or.inl rfl⟩
  | some text =>
    dsimp only [Option.map_some]
    split
    · exact ⟨[], by simp, Or.inl rfl⟩
    · refine ⟨' ' :: (tidy text).toList, by simp, Or.inr ⟨_, rfl, tidy_clean (clean text rfl)⟩⟩

/-- A description does not change whether a line closes its block. -/
theorem withDescription_docLine_iff {line : String}
    (clean : ∀ text ∈ description, CleanText text.toList)
    (starred : [' ', '*'] <+: line.toList) (feedless : '\n' ∉ line.toList) :
    ([' ', '*'] <+: (withDescription line description).toList ∧
      '\n' ∉ (withDescription line description).toList) ∧
    (Closerless (withDescription line description).toList ↔ Closerless line.toList) := by
  obtain ⟨rest, split, none | ⟨text, spaced, textClean⟩⟩ := withDescription_toList line clean
  · rw [split, none, List.append_nil]
    exact ⟨⟨starred, feedless⟩, Iff.rfl⟩
  · rw [split, spaced, closerless_append_cons (by decide) (by decide)]
    refine ⟨⟨starred.trans (List.prefix_append _ _), ?_⟩, and_iff_left textClean.2⟩
    rw [List.mem_append, List.mem_cons, not_or, not_or]
    exact ⟨feedless, by decide, textClean.1⟩

end Description

theorem cleanText_nameOf {type : Option TypeRef} (plain : ∀ t ∈ type, Plain t.name.toList) :
    CleanText (TypeRef.nameOf type).toList := by
  cases type with
  | none => exact cleanText_of_plain (by decide)
  | some t => exact cleanText_of_plain (plain t rfl)

/-- The tag of a parameter is a body line exactly if the default does not close the block. -/
theorem paramLine_isBodyText_iff {p : Param} {doc : TagDoc} (plain : p.IsPlain)
    (clean : doc.IsClean) :
    (IsBodyText (paramLine p doc) ↔ ∀ value ∈ p.default, Closerless value.text.toList) ∧
      closer.toList ∉ pieces '\n' (paramLine p doc).toList := by
  have typeClean : CleanText (doc.type.getD (TypeRef.nameOf p.type)).toList := by
    cases written : doc.type with
    | none => exact cleanText_nameOf plain.type
    | some text => exact clean.type text written
  have nameClean := cleanText_of_plain plain.name
  -- The text up to the description, with the default in it if there is one.
  obtain ⟨line, same, starred, feedless, closerless⟩ : ∃ line,
      paramLine p doc = withDescription line doc.description ∧
      " * @param ".toList <+: line.toList ∧ '\n' ∉ line.toList ∧
      (Closerless line.toList ↔ ∀ value ∈ p.default, Closerless value.text.toList) := by
    refine ⟨_, rfl, ?_, ?_, ?_⟩
    · simp [braced]
    · cases found : p.default with
      | none => simp [braced, typeClean.1, nameClean.1]
      | some value => simp [braced, typeClean.1, nameClean.1, plain.default value found]
    · cases found : p.default with
      | none =>
        simp [braced, closerless_cons, closerless_append_cons, typeClean.2, nameClean.2]
      | some value =>
        simp [braced, closerless_cons, closerless_append_cons, closerless_nil, typeClean.2,
          nameClean.2]
  have start : [' ', '*'] <+: " * @param ".toList := by decide
  obtain ⟨⟨starred', feedless'⟩, iff⟩ :=
    withDescription_docLine_iff clean.description (start.trans starred) feedless
  rw [same, ← closerless, ← iff, IsBodyText, pieces_of_notMem feedless']
  refine ⟨?_, ?_⟩
  · constructor
    · intro body
      exact (body _ (List.mem_singleton.mpr rfl)).2
    · intro closerless text member
      rw [List.mem_singleton.mp member]
      exact ⟨starred', closerless⟩
  · rw [List.mem_singleton]
    intro closes
    obtain ⟨rest, split, -⟩ := withDescription_toList line clean.description
    have long : " * @param ".toList <+: closer.toList := by
      rw [closes, split]
      exact starred.trans (List.prefix_append _ _)
    exact absurd long (by decide)

/-- The tags of parameters are body lines exactly if no default closes the block; the other lines
always are. -/
theorem takeParams_isBodyText_iff {lines : List String} (docLines : ∀ s ∈ lines, DocLine s)
    {params : List Param} (plain : ∀ p ∈ params, p.IsPlain) :
    (∀ s ∈ (takeParams lines params).1, DocLine s) ∧
    (∀ s ∈ (takeParams lines params).2, closer.toList ∉ pieces '\n' s.toList) ∧
    ((∀ s ∈ (takeParams lines params).2, IsBodyText s) ↔
      ∀ p ∈ params, ∀ value ∈ p.default, Closerless value.text.toList) := by
  induction params generalizing lines with
  | nil => exact ⟨docLines, by simp [takeParams], by simp [takeParams]⟩
  | cons p more ih =>
    have doc := takeParam_isClean p.name fun line member =>
      ⟨(docLines line member).feedless, (docLines line member).closerless⟩
    have left : ∀ s ∈ (takeParam p.name lines).1, DocLine s :=
      fun s member => docLines s (List.mem_of_mem_filter member)
    obtain ⟨rest, notClosing, bodies⟩ := ih left fun q member =>
      plain q (List.mem_cons_of_mem _ member)
    obtain ⟨body, notCloser⟩ := paramLine_isBodyText_iff (plain p List.mem_cons_self) doc
    rw [takeParams]
    refine ⟨rest, ?_, ?_⟩
    · rw [List.forall_mem_cons]
      exact ⟨notCloser, notClosing⟩
    · rw [List.forall_mem_cons, List.forall_mem_cons]
      exact and_congr body bodies

theorem docLine_returnsLine {f : FunctionDecl} {doc : Option TagDoc}
    (plain : ∀ type ∈ f.returns, Plain type.name.toList) (clean : ∀ d ∈ doc, d.IsClean) :
    DocLine (returnsLine f doc) := by
  have declared : CleanText (declaredReturn f).toList := by
    rw [declaredReturn]
    split
    · exact cleanText_of_plain (by decide)
    · exact cleanText_nameOf plain
  have typeClean : CleanText ((doc.bind (·.type)).getD (declaredReturn f)).toList := by
    cases written : doc.bind (·.type) with
    | none => exact declared
    | some text =>
      obtain ⟨d, isDoc, isType⟩ := Option.bind_eq_some_iff.mp written
      exact (clean d isDoc).type text isType
  have described : ∀ text ∈ doc.bind (·.description), CleanText text.toList := by
    intro text found
    obtain ⟨d, isDoc, isDescription⟩ := Option.bind_eq_some_iff.mp found
    exact (clean d isDoc).description text isDescription
  have starred : [' ', '*'] <+:
      (" * @returns " ++ braced ((doc.bind (·.type)).getD (declaredReturn f))).toList := by
    simp [braced]
  have feedless : '\n' ∉
      (" * @returns " ++ braced ((doc.bind (·.type)).getD (declaredReturn f))).toList := by
    simp [braced, typeClean.1]
  obtain ⟨⟨starred, feedless⟩, iff⟩ := withDescription_docLine_iff described starred feedless
  refine ⟨starred, feedless, iff.mpr ?_⟩
  simp [braced, closerless_cons, closerless_append_cons, closerless_nil, typeClean.2]

theorem docLine_propertyLine {type name description : String} (typeClean : CleanText type.toList)
    (nameClean : CleanText name.toList) (described : CleanText description.toList) :
    DocLine (propertyLine type name description) := by
  let whole := " * @property " ++ braced type ++ " " ++ name ++ " " ++ description
  obtain ⟨rest, split⟩ : ∃ rest, whole.toList = [' '] ++ '*' :: rest := by
    simp [whole, braced]
  have kept : trimEnd whole.toList = [' ', '*'] ++ trimEnd rest := by
    rw [split]
    exact dropEndWhile_append_cons isWhite (by decide) [' '] rest
  have inside : trimEnd whole.toList <:+: whole.toList :=
    (dropEndWhile_isPrefix isWhite _).isInfix
  have clean : CleanText whole.toList := by
    refine ⟨?_, ?_⟩
    · simp [whole, braced, typeClean.1, nameClean.1, described.1]
    · simp [whole, braced, closerless_cons, closerless_append_cons, typeClean.2, nameClean.2,
        described.2]
  have trimmed := clean.part inside
  rw [propertyLine]
  refine ⟨?_, ?_, ?_⟩ <;> rw [String.toList_ofList]
  · rw [kept]
    exact List.prefix_append _ _
  · exact trimmed.1
  · exact trimmed.2

theorem cleanText_replaceChar {name : String} (plain : Plain name.toList) :
    CleanText (replaceChar '.' '/' name).toList := by
  refine ⟨?_, closerless_of_notMem_star ?_⟩
  · intro feed
    rcases mem_replaceChar feed with ⟨slash, -⟩ | ⟨-, member⟩
    · cases slash
    · exact (plain _ member).2.2 rfl
  · intro star
    rcases mem_replaceChar star with ⟨slash, -⟩ | ⟨-, member⟩
    · cases slash
    · exact (plain _ member).1 rfl

/-- Every line of the name of a module, with slashes for dots, lacks asterisks or slashes. -/
theorem moduleSafe_lines {name : String} (safe : ModuleSafe name) {line : List Char}
    (member : line ∈ pieces '\n' (replaceChar '.' '/' name).toList) : '*' ∉ line ∨ '/' ∉ line := by
  have inside := (infix_of_mem_pieces member).1.subset
  rcases safe with noStar | ⟨noSlash, noDot⟩
  · left
    intro star
    rcases mem_replaceChar (inside star) with ⟨slash, -⟩ | ⟨-, member⟩
    · cases slash
    · exact noStar member
  · right
    intro slash
    rcases mem_replaceChar (inside slash) with ⟨-, dot⟩ | ⟨-, member⟩
    · exact noDot dot
    · exact noSlash member

/-- Slashes for dots change neither where the lines of a name end nor how they start. -/
theorem moduleFits_replaceChar (name : String) :
    (∀ line ∈ (pieces '\n' (replaceChar '.' '/' name).toList).tail, [' ', '*'] <+: line) ↔
      ModuleFits name := by
  have kept : ∀ c : Char, (if c = '.' then '/' else c) = '\n' ↔ c = '\n' := by
    intro c
    split
    · rename_i dot
      rw [dot]
      decide
    · exact Iff.rfl
  have same : ∀ {e : Char} (c : Char), e ≠ '.' → e ≠ '/' →
      (e = (if c = '.' then '/' else c) ↔ e = c) := by
    intro e c notDot notSlash
    split
    · rename_i dot
      rw [dot]
      exact ⟨fun slash => absurd slash notSlash, fun isDot => absurd isDot notDot⟩
    · exact Iff.rfl
  rw [ModuleFits, replaceChar_toList, pieces_map kept, ← List.map_tail, List.forall_mem_map]
  refine forall₂_congr fun line _ => ?_
  match line with
  | [] => simp
  | [c] => simp
  | c :: d :: rest =>
    simp only [List.map_cons, List.cons_prefix_cons, List.nil_prefix, and_true]
    exact and_congr (same c (by decide) (by decide)) (same d (by decide) (by decide))

/-- A tag with the name of the module is body lines exactly if the name fits. -/
theorem moduleLine_isBodyText_iff {lead name : String} {start : List Char} {last : Char}
    (safe : ModuleSafe name) (split : lead.toList = start ++ [last]) (notStar : last ≠ '*')
    (notSlash : last ≠ '/') (line : DocLine lead) :
    (IsBodyText (lead ++ replaceChar '.' '/' name) ↔ ModuleFits name) ∧
      closer.toList ∉ pieces '\n' (lead ++ replaceChar '.' '/' name).toList := by
  let key := (replaceChar '.' '/' name).toList
  have closerless : ∀ line ∈ pieces '\n' key, Closerless line := by
    intro line member
    rcases moduleSafe_lines safe member with noStar | noSlash
    · exact closerless_of_notMem_star noStar
    · exact closerless_of_notMem_slash noSlash
  have lines : pieces '\n' (lead ++ replaceChar '.' '/' name).toList =
      (lead.toList ++ (pieces '\n' key).headD []) :: (pieces '\n' key).tail := by
    rw [String.toList_append]
    exact pieces_append_of_notMem line.feedless key
  have first : IsBodyLine (lead.toList ++ (pieces '\n' key).headD []) := by
    refine ⟨line.starred.trans (List.prefix_append _ _), ?_⟩
    have before := line.closerless
    rw [split, closerless_append_cons notStar notSlash] at before
    rw [split, List.append_assoc, List.singleton_append, closerless_append_cons notStar notSlash]
    refine ⟨before.1, ?_⟩
    cases found : pieces '\n' key with
    | nil => exact closerless_nil
    | cons piece more => exact closerless piece (found ▸ List.mem_cons_self)
  have inTail : ∀ line ∈ (pieces '\n' key).tail, line ∈ pieces '\n' key :=
    fun line member => List.mem_of_mem_tail member
  rw [IsBodyText, lines, ← moduleFits_replaceChar]
  refine ⟨?_, ?_⟩
  · rw [List.forall_mem_cons]
    constructor
    · intro body line member
      exact (body.2 line member).1
    · intro starred
      exact ⟨first, fun line member => ⟨starred line member, closerless line (inTail line member)⟩⟩
  · rw [List.mem_cons, not_or]
    refine ⟨fun closes => not_isBodyLine_closer (closes ▸ first), ?_⟩
    intro closes
    rcases moduleSafe_lines safe (inTail _ closes) with noStar | noSlash
    · exact noStar (by decide)
    · exact noSlash (by decide)

end BrightDoc.Carrier
