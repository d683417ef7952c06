import BrightDoc.Proofs.Doc.Parameters
import BrightDoc.Proofs.Doc.TagSites

/-! # Tags with a name in brackets

An optional parameter is documented with its name and its default in brackets. The brackets of a tag
reach to the last closing one of the line, not to the one that ends the default. So a line of this form
always documents the parameter that it names, and it says the whole description exactly when the
description has no closing bracket of its own. -/

namespace BrightDoc.Doc

open BrightDoc.Text

/-- A tag for an optional parameter: a type, a name that is a word with or without a designator, a
default without brackets, and a description that is not blank and does not start with what is skipped
before a description. The default and the description stay on the line of the tag. -/
structure BracketedTag where
  type : List Char
  word : List Char
  designator : Option Char := none
  default : List Char
  description : List Char
  type_unclosed : '}' ∉ type
  word_nonempty : word ≠ []
  word_isWord : ∀ c ∈ word, isWord c = true
  designates : ∀ c ∈ designator, Line.isDesignator c = true
  default_unbracketed : '[' ∉ default ∧ ']' ∉ default
  described : isAllWhite description = false
  starts : ∀ c ∈ description.head?, isWhite c = false ∧ c ≠ '-' ∧ c ≠ '|'
  feedless : '\n' ∉ default ∧ '\n' ∉ description

namespace BracketedTag

variable (t : BracketedTag)

/-- The name of the parameter. -/
def name : List Char :=
  t.word ++ t.designator.toList

/-- The text after the word of the name. -/
def rest : List Char :=
  t.designator.toList ++ '=' :: (t.default ++ ']' :: ' ' :: t.description)

/-- The text after `@param`. -/
def body : List Char :=
  ' ' :: '{' :: (t.type ++ '}' :: ' ' :: '[' :: (t.word ++ t.rest))

/-- The line ` * @param {type} [name=default] description`. -/
def line : String :=
  String.ofList (" * @param".toList ++ t.body)

/-- Where the tag stands in the line. -/
def site : TagSite :=
  { type := some t.type, bracketed := true, word := t.word, rest := t.rest }

/-- The text after the last closing bracket of the line. -/
def left : List Char :=
  ((cutAtLast? ']' (']' :: ' ' :: t.description)).map Prod.snd).getD []

/-- What is found as the description. -/
def found : Option String :=
  (nonBlank? (t.left.dropWhile fun c => isSpace c || c == '-' || c == '|')).map String.ofList

section Site

theorem isWord_of_head?_rest : ∀ c ∈ t.rest.head?, isWord c = false := by
  intro c first
  rw [rest] at first
  cases designator : t.designator with
  | none =>
    rw [designator] at first
    cases first
    decide
  | some d =>
    rw [designator] at first
    cases first
    have designates := t.designates c designator
    simp only [Line.isDesignator, Bool.or_eq_true, beq_iff_eq] at designates
    rcases designates with (((rfl | rfl) | rfl) | rfl) | rfl <;> decide

/-- The bracket that ends the default is the first closing one after the word. -/
theorem rest_eq : ∃ inside : List Char,
    '\n' ∉ inside ∧ ']' ∉ inside ∧ t.rest = inside ++ ']' :: ' ' :: t.description := by
  have apart : ∀ c ∈ t.designator, c ≠ ']' ∧ c ≠ '\n' :=
    fun c isDesignator => isDesignator_apart (t.designates c isDesignator)
  refine ⟨t.designator.toList ++ '=' :: t.default, ?_, ?_, by simp [rest]⟩
  · have free : '\n' ∉ t.designator.toList :=
      fun feed => (apart _ (Option.mem_toList.mp feed)).2 rfl
    simp [free, t.feedless]
  · have free : ']' ∉ t.designator.toList :=
      fun bracket => (apart _ (Option.mem_toList.mp bracket)).1 rfl
    simp [free, t.default_unbracketed]

theorem feedless_rest : '\n' ∉ t.rest := by
  obtain ⟨inside, feedless, -, split⟩ := t.rest_eq
  simp [split, feedless, t.feedless]

theorem siteAt?_word : siteAt? (some t.type) true (t.word ++ t.rest) = some t.site := by
  obtain ⟨stops, whole⟩ := takeWhile_of_head? t.isWord_of_head?_rest
  have closed : ']' ∈ restOfLine t.rest := by
    obtain ⟨inside, -, -, split⟩ := t.rest_eq
    rw [(restOfLine_of_feedless t.feedless_rest).1, split]
    simp
  rw [siteAt?, List.takeWhile_append_of_pos t.word_isWord, List.dropWhile_append_of_pos t.word_isWord,
    stops, whole, List.append_nil, if_neg]
  · rfl
  · simp [t.word_nonempty, closed]

theorem typedSite?_body : typedSite? t.body = some t.site := by
  have spaced : someSpace? t.body =
      some ('{' :: (t.type ++ '}' :: ' ' :: '[' :: (t.word ++ t.rest))) := rfl
  have cut : cutAtFirst? '}' (t.type ++ '}' :: ' ' :: '[' :: (t.word ++ t.rest)) =
      some (t.type, ' ' :: '[' :: (t.word ++ t.rest)) := by
    rw [cutAtFirst?_append_of_notMem t.type_unclosed]
    simp [cutAtFirst?]
  have afterType : someSpace? (' ' :: '[' :: (t.word ++ t.rest)) =
      some ('[' :: (t.word ++ t.rest)) := rfl
  rw [typedSite?, spaced, Option.bind_some, if_pos List.head?_cons, List.tail_cons, cut,
    Option.bind_some]
  dsimp only
  rw [afterType, Option.bind_some, nameSite?, if_pos List.head?_cons, List.tail_cons, siteAt?_word]

/-- The tag of the line is the one that is written there. -/
theorem tagSite?_line : tagSite? t.line = some t.site := by
  have here : afterParam? typedSite? ("@param".toList ++ t.body) = some t.site := by
    have tagged : after? "@param" ("@param".toList ++ t.body) = some t.body :=
      List.isPrefixOf?_eq_some_iff_append_eq.mpr rfl
    rw [afterParam?, tagged, Option.bind_some, typedSite?_body]
  have typed : leftmost? (afterParam? typedSite?) t.line.toList = some t.site := by
    have split : t.line.toList = " * ".toList ++ ("@param".toList ++ t.body) := String.toList_ofList
    rw [split, leftmost?_afterParam?_append _ (by decide), leftmost?_of_recognised here]
  rw [tagSite?, typed, Option.some_or]

theorem name_site : t.site.name = t.name := by
  rw [TagSite.name, site, rest, name]
  cases designator : t.designator with
  | none => simp [Line.withDesignator, Line.isDesignator]
  | some c => simp [Line.withDesignator, t.designates c designator]

/-- The line documents the parameter that it names. -/
theorem paramDoc?_line : paramDoc? (nameKey t.name) t.line = some t.site.tag.doc := by
  rw [paramDoc?, parameterTag?_eq, tagSite?_line, Option.map_some]
  dsimp only
  rw [TagSite.tag, parameterTag, t.name_site, if_pos rfl]

end Site

section Description

theorem tail_site : t.site.tail = t.left := by
  obtain ⟨inside, -, free, split⟩ := t.rest_eq
  obtain ⟨line, ended⟩ := restOfLine_of_feedless t.feedless_rest
  rw [TagSite.tail_of_bracketed rfl]
  change TagSite.tailOf true t.rest = _
  rw [TagSite.tailOf, if_pos rfl, line, ended, List.append_nil, left, split,
    cutAtLast?_append_of_notMem free, Option.map_map]
  rfl

theorem left_free : ']' ∉ t.left ∧ '\n' ∉ t.left := by
  rw [left]
  cases cut : cutAtLast? ']' (']' :: ' ' :: t.description) with
  | none => exact absurd List.mem_cons_self (cutAtLast?_eq_none_iff.mp cut)
  | some parts =>
    obtain ⟨split, free⟩ := cutAtLast?_eq_some cut
    refine ⟨free, fun feed => ?_⟩
    have inside : '\n' ∈ ']' :: ' ' :: t.description := by
      rw [split]
      exact List.mem_append_right _ (List.mem_cons_of_mem _ feed)
    simp [t.feedless] at inside

theorem left_of_notMem (free : ']' ∉ t.description) : t.left = ' ' :: t.description := by
  have spaced : ']' ∉ ' ' :: t.description := by simp [free]
  have cut := cutAtLast?_append spaced []
  rw [List.nil_append] at cut
  rw [left, cut]
  rfl

theorem description_site : t.site.tag.doc.description = t.found := by
  rw [TagSite.tag, tail_site, parameterTag, found]
  dsimp only
  rw [(restOfLine_of_feedless _).1]
  exact fun feed => t.left_free.2 ((List.dropWhile_suffix _).subset feed)

/-- The description is found whole exactly when it has no closing bracket. -/
theorem found_eq_iff : t.found = some (String.ofList t.description) ↔ ']' ∉ t.description := by
  rw [found]
  constructor
  · -- Nothing that is found has a closing bracket, since it stands after the last one.
    intro whole bracket
    obtain ⟨cs, nonBlank, same⟩ := Option.map_eq_some_iff.mp whole
    rw [nonBlank?] at nonBlank
    split at nonBlank
    · cases nonBlank
    · cases nonBlank
      rw [← String.ofList_inj.mp same] at bracket
      exact t.left_free.1 ((List.dropWhile_suffix _).subset bracket)
  · intro free
    have starts : ∀ c ∈ t.description.head?, (isSpace c || c == '-' || c == '|') = false := by
      intro c first
      obtain ⟨notWhite, notDash, notBar⟩ := t.starts c first
      have notSpace : isSpace c = false := by
        rw [Bool.eq_false_iff]
        intro space
        rw [isWhite_of_isSpace space] at notWhite
        cases notWhite
      simp [notSpace, notDash, notBar]
    rw [t.left_of_notMem free, List.dropWhile_cons_of_pos (by decide), (takeWhile_of_head? starts).2,
      nonBlank?, t.described]
    rfl

end Description

end BracketedTag

/-- The line of a bracketed tag is taken out when its parameter is looked up. If no later line has the
say, what it says is the description, as it is written, exactly when the description has no closing
bracket. -/
theorem bracketed_description_kept_iff (t : BracketedTag) (before after : List String) :
    (takeParam (String.ofList t.name) (before ++ t.line :: after)).1 =
        (takeParam (String.ofList t.name) (before ++ after)).1 ∧
      ((∀ line ∈ after, paramDoc? (nameKey t.name) line = none) →
        ((takeParam (String.ofList t.name) (before ++ t.line :: after)).2.description =
            some (String.ofList t.description) ↔
          ']' ∉ t.description)) := by
  have documented : paramDoc? (nameKey (String.ofList t.name).toList) t.line = some t.site.tag.doc := by
    rw [String.toList_ofList]
    exact t.paramDoc?_line
  refine ⟨takeParam_lines_of_documented documented before after, fun last => ?_⟩
  rw [← String.toList_ofList (l := t.name)] at last
  rw [takeParam_doc_of_last documented before last, t.description_site, t.found_eq_iff]

/-- A tag for a parameter that counts. -/
def countTag : BracketedTag where
  type := "integer".toList
  word := "count".toList
  designator := some '%'
  default := "3".toList
  description := "how many - [at most".toList
  type_unclosed := by decide
  word_nonempty := by decide
  word_isWord := List.all_eq_true.mp (by decide)
  designates := by
    rintro c ⟨⟩
    decide
  default_unbracketed := by decide
  described := by decide
  starts := by
    rintro c ⟨⟩
    decide
  feedless := by decide

theorem count_description_kept :
    (∀ line ∈ [" * @returns the count"], paramDoc? (nameKey countTag.name) line = none) ∧
      (let (left, doc) :=
        takeParam "count%" [" * @param Count% before", countTag.line, " * @returns the count"]
      left = [" * @returns the count"] ∧ doc.description = some "how many - [at most") := by
  have last : ∀ line ∈ [" * @returns the count"], paramDoc? (nameKey countTag.name) line = none := by
    decide
  obtain ⟨consumed, kept⟩ :=
    bracketed_description_kept_iff countTag [" * @param Count% before"] [" * @returns the count"]
  have lines : (takeParam "count%" [" * @param Count% before", " * @returns the count"]).1 =
      [" * @returns the count"] := by decide
  exact ⟨last, consumed.trans lines, (kept last).mpr (by decide)⟩

/-- Brackets in the description take the start of it away. -/
theorem bracketed_description_cut :
    takeParam "count" [" * @param \x7binteger\x7d [count=3] how many [items] to show"] =
      ([], { type := some "integer", description := some "to show" }) := by
  decide

end BrightDoc.Doc
