import BrightDoc.Proofs.Carrier.Callables
import BrightDoc.Proofs.Doc.TagSites
import BrightDoc.Proofs.Line.Literals
import Mathlib.Data.List.Forall2

/-! # Parameters in escaped comments

With markup escaped, a function's parameters are documented by the same lines, and these say the same
with their markup escaped, unless an entity comes right after the word of a name: where another name
arises that way, or an ampersand that is part of the name loses the rest of its entity to the
description. -/

namespace BrightDoc.Text

theorem eq_of_ofNat_eq_ampersand {n : Nat} (same : Char.ofNat n = '&') : n = 38 := by
  by_cases valid : n.isValidChar
  · have written : Char.ofNat n = Char.ofNatAux n valid := dif_pos valid
    exact congrArg Char.toNat (written.symm.trans same)
  · have written : Char.ofNat n = '\x00' := dif_neg valid
    exact absurd (written.symm.trans same) (by decide)

theorem lowerByRun_ne_ampersand {c : Char} (other : c ≠ '&') : lowerByRun c ≠ '&' := by
  -- The small forms of all runs lie above the ampersand.
  have high : ∀ r ∈ caseRuns, 38 < (r.first : Int) + r.shift := by decide +kernel
  rw [lowerByRun]
  split
  · rename_i r found
    have covers : r.first ≤ c.toNat := by
      have covers := List.find?_some found
      simp only [CaseRun.covers, Bool.and_eq_true, decide_eq_true_eq] at covers
      exact covers.1.1
    have above := high r (List.mem_of_find?_eq_some found)
    intro same
    have value := eq_of_ofNat_eq_ampersand same
    omega
  · exact other

/-- Lowercase neither brings an ampersand about nor takes one away. -/
theorem ampersand_mem_lowerAt_iff (before after : List Char) (c : Char) :
    '&' ∈ lowerAt before c after ↔ c = '&' := by
  by_cases ascii : c.toNat < 128
  · have each : '&' = c.toLower ↔ c = '&' :=
      Line.of_ascii (P := fun c => '&' = c.toLower ↔ c = '&') (by decide +kernel) ascii
    simpa [lowerAt, ascii] using each
  · have other : c ≠ '&' := by
      rintro rfl
      exact ascii (by decide)
    have none : '&' ∉ lowerAt before c after := by
      rw [lowerAt, if_neg ascii]
      split
      · split
        · decide
        · decide
      · split
        · decide
        · rw [List.mem_singleton]
          exact Ne.symm (lowerByRun_ne_ampersand other)
    exact iff_of_false none other

theorem ampersand_mem_lowercase_iff (s : String) : '&' ∈ (lowercase s).toList ↔ '&' ∈ s.toList := by
  have each : ∀ (cs before : List Char), '&' ∈ lowercaseFrom before cs ↔ '&' ∈ cs := by
    intro cs
    induction cs with
    | nil => exact fun _ => Iff.rfl
    | cons c cs ih =>
      intro before
      rw [lowercaseFrom, List.mem_append, List.mem_cons, ampersand_mem_lowerAt_iff, ih, eq_comm]
  rw [lowercase, String.toList_ofList]
  exact each _ _

end BrightDoc.Text

namespace BrightDoc.Doc

open BrightDoc.Text

/-- A word and the same word with an ampersand name different parameters. -/
theorem nameKey_ampersand_ne {word : List Char} (worded : ∀ c ∈ word, isWord c = true) :
    nameKey (word ++ ['&']) ≠ nameKey word := by
  have kept : '&' ∈ trim (word ++ ['&']) := by
    have last : trimEnd (word ++ ['&']) = word ++ ['&'] :=
      dropEndWhile_append_cons isWhite (by decide) word []
    have start : word ++ ['&'] = (word ++ ['&']).takeWhile isWhite ++ trim (word ++ ['&']) := by
      rw [trim, last, trimStart, List.takeWhile_append_dropWhile]
    have member : '&' ∈ (word ++ ['&']).takeWhile isWhite ++ trim (word ++ ['&']) := by
      rw [← start]
      simp
    refine (List.mem_append.mp member).resolve_left fun white => ?_
    exact absurd (List.mem_takeWhile_imp white) (by decide)
  have free : '&' ∉ trim word := by
    intro member
    have isWord := worded '&' ((trim_isInfix word).subset member)
    exact absurd isWord (by decide)
  intro same
  have lowered := congrArg (fun key : String => '&' ∈ key.toList) same
  simp only [nameKey, ampersand_mem_lowercase_iff, String.toList_ofList, kept, free] at lowered
  exact absurd lowered (by decide)

theorem documentedKey?_eq (line : String) :
    documentedKey? line = (tagSite? line).map fun s => nameKey s.name := by
  rw [documentedKey?, parameterTag?_eq, Option.map_map]
  rfl

/-- A line and the escaped line document the same of some parameters, unless the name in its tag becomes
or was one of theirs. -/
theorem documentedKey?_escapeText_iff (keys : List String) (line : String) :
    (∀ key ∈ keys, documentedKey? (escapeText line) = some key ↔ documentedKey? line = some key) ↔
      ∀ s ∈ tagSite? line, s.IsRenamed →
        nameKey s.word ∉ keys ∧ nameKey (s.word ++ ['&']) ∉ keys := by
  rw [documentedKey?_eq, documentedKey?_eq, tagSite?_escapeText]
  cases found : tagSite? line with
  | none => simp
  | some s =>
    have apart := nameKey_ampersand_ne (foundIn_of_tagSite? found).worded
    simp only [Option.map_some, Option.some.injEq, Option.mem_some_iff, forall_eq']
    by_cases renamed : s.IsRenamed
    · obtain ⟨plain, escaped⟩ := s.name_of_isRenamed renamed
      rw [plain, escaped]
      constructor
      · intro alike _
        constructor
        · intro member
          exact apart ((alike _ member).mpr rfl)
        · intro member
          exact apart ((alike _ member).mp rfl).symm
      · intro free key member
        obtain ⟨notPlain, notEscaped⟩ := free renamed
        constructor
        · rintro rfl
          exact absurd member notEscaped
        · rintro rfl
          exact absurd member notPlain
    · simp [s.name_escape renamed, renamed]

theorem paramDoc?_eq (key line : String) :
    paramDoc? key line =
      (tagSite? line).bind fun s => if nameKey s.name = key then some s.tag.doc else none := by
  rw [paramDoc?, parameterTag?_eq]
  cases tagSite? line with
  | none => rfl
  | some s =>
    rw [Option.map_some, Option.bind_some]
    rfl

/-- What the tag of a line says. -/
def saidIn (line : String) : TagDoc :=
  ((tagSite? line).map fun s => s.tag.doc).getD {}

/-- The last line counts. -/
theorem lastDoc_eq (lines : List String) (key : String) :
    lastDoc lines key =
      ((lines.filter fun line => documentedKey? line = some key).getLast?.map saidIn).getD {} := by
  have documented : lines.filterMap (paramDoc? key) =
      (lines.filter fun line => documentedKey? line = some key).map saidIn := by
    induction lines with
    | nil => rfl
    | cons line more ih =>
      rw [List.filterMap_cons, List.filter_cons, ih, paramDoc?_eq, documentedKey?_eq]
      cases found : tagSite? line with
      | none => simp
      | some s =>
        by_cases same : nameKey s.name = key
        · simp [same, saidIn, found]
        · simp [same]
  rw [lastDoc, documented, List.getLast?_map]

theorem docsOf_eq_iff (lines escaped keys : List String) :
    docsOf escaped keys = (docsOf lines keys).map TagDoc.escape ↔
      ∀ key ∈ keys, lastDoc escaped key = (lastDoc lines key).escape := by
  constructor
  · intro same key member
    obtain ⟨earlier, later, rfl, fresh⟩ := List.eq_append_cons_of_mem member
    have here := congrArg (·[earlier.length]?) same
    simpa [docsOf, docAfter, fresh] using here
  · intro each
    apply List.ext_getElem?
    intro i
    rw [List.getElem?_map, docsOf, docsOf, List.getElem?_mapIdx, List.getElem?_mapIdx, Option.map_map]
    cases found : keys[i]? with
    | none => rfl
    | some key =>
      rw [Option.map_some, Option.map_some, Function.comp, docAfter, docAfter]
      split
      · rfl
      · rw [each key (List.mem_of_getElem? found)]

/-- The tag of a line that documents the same parameter before and after escaping says the same, unless
escaping splits the name. -/
theorem saidIn_escapeText_iff {key line : String} (feedless : '\n' ∉ line.toList)
    (documented : documentedKey? line = some key)
    (documentedStill : documentedKey? (escapeText line) = some key) :
    saidIn (escapeText line) = (saidIn line).escape ↔ ∀ s ∈ tagSite? line, ¬ s.IsSplit := by
  have alike : ∀ other ∈ [key],
      documentedKey? (escapeText line) = some other ↔ documentedKey? line = some other := by
    simp [documented, documentedStill]
  have unrenamed := (documentedKey?_escapeText_iff [key] line).mp alike
  rw [documentedKey?_eq] at documented
  obtain ⟨s, found, rfl⟩ := Option.map_eq_some_iff.mp documented
  have same : ¬ s.IsRenamed := by
    intro renamed
    apply (unrenamed s found renamed).1
    rw [(s.name_of_isRenamed renamed).1]
    exact List.mem_singleton_self _
  rw [saidIn, saidIn, tagSite?_escapeText, found]
  simp only [Option.map_some, Option.getD_some, Option.mem_some_iff, forall_eq']
  constructor
  · intro said split
    refine s.doc_of_isSplit split (fun feed => feedless ?_) said
    exact (foundIn_of_tagSite? found).isEnd.subset feed
  · exact s.doc_escape same

theorem lastDoc_escapeText_iff {lines : List String} {key : String}
    (feedless : ∀ line ∈ lines, '\n' ∉ line.toList)
    (alike : ∀ line ∈ lines,
      documentedKey? (escapeText line) = some key ↔ documentedKey? line = some key) :
    lastDoc (lines.map escapeText) key = (lastDoc lines key).escape ↔
      ∀ line ∈ (lines.filter fun line => documentedKey? line = some key).getLast?,
        ∀ s ∈ tagSite? line, ¬ s.IsSplit := by
  have lastEscaped : ((lines.map escapeText).filter fun line => documentedKey? line = some key) =
      (lines.filter fun line => documentedKey? line = some key).map escapeText := by
    rw [List.filter_map]
    refine congrArg (List.map escapeText) (List.filter_congr fun line member => ?_)
    simp only [Function.comp, alike line member]
  rw [lastDoc_eq, lastDoc_eq, lastEscaped, List.getLast?_map]
  cases last : (lines.filter fun line => documentedKey? line = some key).getLast? with
  | none => simp [TagDoc.escape]
  | some line =>
    obtain ⟨inside, documented⟩ := List.mem_filter.mp (List.mem_of_getLast? last)
    have documented := of_decide_eq_true documented
    simp only [Option.map_some, Option.getD_some, Option.mem_some_iff, forall_eq']
    exact saidIn_escapeText_iff (feedless line inside) documented ((alike line inside).mpr documented)

end BrightDoc.Doc

namespace BrightDoc.Carrier

/-- The tags of the parameters are written from what the lines of the comment say about them. -/
theorem FunctionDoc.params_eq (escape : Bool) (comment : Option Comment) (f : FunctionDecl) :
    (FunctionDoc.of escape comment f).params =
      List.zipWith paramLine f.params
        (Doc.docsOf (Doc.linesOf escape comment) (f.params.map Param.key)) := by
  rw [FunctionDoc.of_eq]
  apply List.ext_getElem?
  intro i
  rw [List.getElem?_mapIdx, List.getElem?_zipWith, Doc.docsOf, List.getElem?_mapIdx, List.getElem?_map]
  cases f.params[i]? with
  | none => rfl
  | some p => simp [List.map_take]

/-- Escaping only escapes, up to the names that it touches. What a comment with its markup escaped says
about the parameters of a function is what it says without, escaped, and the same lines document the same
parameters, just if two things hold: escaping neither takes the name of a parameter from a tag nor gives
it to one, and it splits no name in the line that counts for a parameter. -/
theorem escaping_only_escapes_iff (comment : Option Comment) (f : FunctionDecl) :
    let plain := Doc.linesOf false comment
    let keys := f.params.map Param.key
    let docs := fun escape => Doc.docsOf (Doc.linesOf escape comment) keys
    (∀ escape,
        (FunctionDoc.of escape comment f).params = List.zipWith paramLine f.params (docs escape)) ∧
      (docs true = (docs false).map Doc.TagDoc.escape ∧
          List.Forall₂
            (fun line escaped => ∀ key ∈ keys,
              Doc.documentedKey? escaped = some key ↔ Doc.documentedKey? line = some key)
            plain (Doc.linesOf true comment) ↔
        (∀ line ∈ plain, ∀ s ∈ Doc.tagSite? line, s.IsRenamed →
            Doc.nameKey s.word ∉ keys ∧ Doc.nameKey (s.word ++ ['&']) ∉ keys) ∧
          ∀ key ∈ keys, ∀ line ∈ (plain.filter fun line => Doc.documentedKey? line = some key).getLast?,
            ∀ s ∈ Doc.tagSite? line, ¬ s.IsSplit) := by
  intro plain keys docs
  refine ⟨fun escape => FunctionDoc.params_eq escape comment f, ?_⟩
  have feedless : ∀ line ∈ plain, '\n' ∉ line.toList :=
    fun line member => (Doc.docLine_linesOf member).feedless
  have recognised : List.Forall₂
      (fun line escaped => ∀ key ∈ keys,
        Doc.documentedKey? escaped = some key ↔ Doc.documentedKey? line = some key)
      plain (Doc.linesOf true comment) ↔
      ∀ line ∈ plain, ∀ key ∈ keys,
        Doc.documentedKey? (Doc.escapeText line) = some key ↔ Doc.documentedKey? line = some key := by
    rw [Doc.linesOf_escaped, List.forall₂_map_right_iff, List.forall₂_same]
  have documented : docs true = (docs false).map Doc.TagDoc.escape ↔
      ∀ key ∈ keys, Doc.lastDoc (plain.map Doc.escapeText) key = (Doc.lastDoc plain key).escape := by
    rw [← Doc.docsOf_eq_iff, ← Doc.linesOf_escaped]
  rw [recognised, documented, and_comm]
  simp only [← Doc.documentedKey?_escapeText_iff]
  refine and_congr_right fun alike => forall₂_congr fun key member => ?_
  exact Doc.lastDoc_escapeText_iff feedless fun line inside => alike line inside key member

/-- A parameter with a designator of its type. -/
def designated : FunctionDecl :=
  { name := "f", params := [{ name := "big&" }] }

/-- The entity of the designator comes apart, and its end is taken for a part of the description. -/
theorem designated_name_split :
    let comment : Comment := { text := "' @param big& the number" }
    let docs := fun escape =>
      Doc.docsOf (Doc.linesOf escape (some comment)) (designated.params.map Param.key)
    docs true = [{ description := some "amp; the number" }] ∧
      docs false = [{ description := some "the number" }] ∧
      docs true ≠ (docs false).map Doc.TagDoc.escape := by
  decide +kernel

end BrightDoc.Carrier
