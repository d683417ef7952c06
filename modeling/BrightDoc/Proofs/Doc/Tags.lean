import BrightDoc.Doc.Tag
import BrightDoc.Proofs.Doc.Closers
import BrightDoc.Proofs.Line.Recognised

/-! # What tags say

The types and descriptions that are found in tags are pieces of the lines they stand on, so they are
as clean as these. -/

namespace BrightDoc.Doc

open BrightDoc.Text

/-- What the tag says is clean. -/
structure TagDoc.IsClean (doc : TagDoc) : Prop where
  type : ∀ text ∈ doc.type, CleanText text.toList
  description : ∀ text ∈ doc.description, CleanText text.toList

theorem tagDoc_isClean_empty : TagDoc.IsClean {} :=
  ⟨by simp, by simp⟩

theorem leftmost?_eq_some {α : Type} {recognise? : List Char → Option α} {cs : List Char} {a : α}
    (found : leftmost? recognise? cs = some a) : ∃ part, part <:+ cs ∧ recognise? part = some a := by
  induction cs with
  | nil => exact ⟨[], List.suffix_refl _, found⟩
  | cons c cs ih =>
    rw [leftmost?] at found
    split at found
    · rename_i here
      cases found
      exact ⟨c :: cs, List.suffix_refl _, here⟩
    · obtain ⟨part, isEnd, here⟩ := ih found
      exact ⟨part, isEnd.trans (List.suffix_cons c cs), here⟩

theorem leftmost?_of_recognised {α : Type} {recognise? : List Char → Option α} {cs : List Char} {a : α}
    (here : recognise? cs = some a) : leftmost? recognise? cs = some a := by
  cases cs with
  | nil => exact here
  | cons c cs => rw [leftmost?, here]

theorem cutAtFirst?_eq_some {mark : Char} {cs before rest : List Char}
    (found : cutAtFirst? mark cs = some (before, rest)) : cs = before ++ mark :: rest := by
  induction cs generalizing before with
  | nil => cases found
  | cons c cs ih =>
    rw [cutAtFirst?] at found
    split at found
    · rename_i here
      cases found
      rw [here]
      rfl
    · obtain ⟨⟨start, rest'⟩, cut, same⟩ := Option.map_eq_some_iff.mp found
      cases same
      rw [ih cut]
      rfl

theorem tagWord?_suffix {cs word rest : List Char} (found : tagWord? cs = some (word, rest)) :
    rest <:+ cs := by
  rw [tagWord?] at found
  split at found
  · cases found
  · have same := Option.some.inj found
    have isEnd := Line.withDesignator_suffix (cs.takeWhile isWord) (cs.dropWhile isWord)
    rw [same] at isEnd
    exact isEnd.trans (List.dropWhile_suffix isWord)

theorem restOfLine_of_feedless {cs : List Char} (feedless : '\n' ∉ cs) :
    restOfLine cs = cs ∧ cs.dropWhile (· != '\n') = [] := by
  have all : ∀ c ∈ cs, (c != '\n') = true := by
    intro c member
    rw [bne_iff_ne]
    rintro rfl
    exact feedless member
  exact ⟨List.takeWhile_eq_self_iff.mpr all, List.dropWhile_eq_nil_iff.mpr all⟩

theorem tagName?_suffix {cs name rest : List Char} (feedless : '\n' ∉ cs)
    (found : tagName? cs = some (name, rest)) : rest <:+ cs := by
  rw [tagName?.eq_def] at found
  split at found
  · rename_i inner
    simp only [Option.bind_eq_bind, Option.bind_eq_some_iff, Option.pure_def, Option.some.injEq,
      Prod.mk.injEq] at found
    obtain ⟨⟨word, afterWord⟩, worded, ⟨start, tail⟩, cut, -, rfl⟩ := found
    have isEnd := tagWord?_suffix worded
    have free : '\n' ∉ afterWord := fun feed => feedless (List.mem_cons_of_mem _ (isEnd.subset feed))
    obtain ⟨same, none⟩ := restOfLine_of_feedless free
    dsimp only at cut
    rw [same] at cut
    dsimp only
    rw [none, List.append_nil]
    have tailEnd : tail <:+ afterWord := by
      rw [(cutAtLast?_eq_some cut).1]
      exact (List.suffix_cons _ _).trans (List.suffix_append _ _)
    exact tailEnd.trans (isEnd.trans (List.suffix_cons _ _))
  · exact tagWord?_suffix found

theorem isClean_parameterTag {type : Option (List Char)} {name rest : List Char}
    (typeClean : ∀ text ∈ type, CleanText text) (restClean : CleanText rest) :
    (parameterTag type name rest).doc.IsClean := by
  refine ⟨?_, ?_⟩
  · intro text found
    obtain ⟨cs, kept, rfl⟩ := Option.map_eq_some_iff.mp found
    obtain ⟨cs', isType, nonBlank⟩ := Option.bind_eq_some_iff.mp kept
    rw [nonBlank?] at nonBlank
    split at nonBlank
    · cases nonBlank
    · cases nonBlank
      rw [String.toList_ofList]
      exact (typeClean cs isType).part (trim_isInfix cs)
  · intro text found
    obtain ⟨cs, kept, rfl⟩ := Option.map_eq_some_iff.mp found
    rw [nonBlank?] at kept
    split at kept
    · cases kept
    · cases kept
      rw [String.toList_ofList]
      have inside := List.takeWhile_prefix (l := rest.dropWhile fun c =>
        isSpace c || c == '-' || c == '|') (· != '\n')
      exact restClean.part (inside.isInfix.trans (List.dropWhile_suffix _).isInfix)

theorem typedParameterTag?_isClean {cs : List Char} {tag : ParameterTag} (clean : CleanText cs)
    (found : typedParameterTag? cs = some tag) : tag.doc.IsClean := by
  simp only [typedParameterTag?, Option.bind_eq_bind, Option.bind_eq_some_iff] at found
  obtain ⟨rest, spaced, found⟩ := found
  have isEnd := someSpace?_suffix spaced
  split at found
  · rename_i inner
    simp only [Option.bind_eq_some_iff, Option.pure_def, Option.some.injEq] at found
    obtain ⟨⟨type, afterType⟩, cut, start, spaced, ⟨name, left⟩, named, rfl⟩ := found
    have split := cutAtFirst?_eq_some cut
    have whole : type ++ '}' :: afterType <:+: cs := by
      rw [← split]
      exact ((List.suffix_cons _ _).trans isEnd).isInfix
    have restClean : CleanText start := by
      have inside : start <:+: type ++ '}' :: afterType :=
        ((someSpace?_suffix spaced).trans ((List.suffix_cons _ _).trans
          (List.suffix_append _ _))).isInfix
      exact clean.part (inside.trans whole)
    apply isClean_parameterTag
    · intro text same
      cases same
      exact clean.part ((List.prefix_append _ _).isInfix.trans whole)
    · exact restClean.part (tagName?_suffix restClean.1 named).isInfix
  · split at found
    · simp only [Option.bind_eq_some_iff, Option.pure_def, Option.some.injEq] at found
      obtain ⟨⟨name, left⟩, named, rfl⟩ := found
      have restClean := clean.part isEnd.isInfix
      apply isClean_parameterTag
      · intro text same
        cases same
      · exact restClean.part (tagName?_suffix restClean.1 named).isInfix
    · cases found

theorem untypedParameterTag?_isClean {cs : List Char} {tag : ParameterTag} (clean : CleanText cs)
    (found : untypedParameterTag? cs = some tag) : tag.doc.IsClean := by
  simp only [untypedParameterTag?, Option.bind_eq_bind, Option.bind_eq_some_iff, Option.pure_def,
    Option.some.injEq] at found
  obtain ⟨start, spaced, ⟨name, rest⟩, named, rfl⟩ := found
  have restClean := clean.part (someSpace?_suffix spaced).isInfix
  apply isClean_parameterTag
  · intro text same
    cases same
  · exact restClean.part (tagName?_suffix restClean.1 named).isInfix

theorem paramDoc?_isClean {key line : String} {doc : TagDoc} (clean : CleanText line.toList)
    (found : paramDoc? key line = some doc) : doc.IsClean := by
  have afterTag : ∀ {recognise? : List Char → Option ParameterTag} {tag : ParameterTag},
      (∀ {cs tag}, CleanText cs → recognise? cs = some tag → tag.doc.IsClean) →
      leftmost? (fun cs => (after? "@param" cs).bind recognise?) line.toList = some tag →
        tag.doc.IsClean := by
    intro recognise? tag sound found
    obtain ⟨part, isEnd, found⟩ := leftmost?_eq_some found
    obtain ⟨rest, tagged, found⟩ := Option.bind_eq_some_iff.mp found
    exact sound (clean.part ((after?_suffix tagged).trans isEnd).isInfix) found
  rw [paramDoc?] at found
  split at found
  · rename_i tag isTag
    split at found
    · cases found
      rw [parameterTag?, Option.or_eq_some_iff] at isTag
      rcases isTag with typed | ⟨-, untyped⟩
      · exact afterTag typedParameterTag?_isClean typed
      · exact afterTag untypedParameterTag?_isClean untyped
    · cases found
  · cases found

/-- What clean lines say about a parameter is clean. -/
theorem takeParam_isClean (name : String) {lines : List String}
    (clean : ∀ line ∈ lines, CleanText line.toList) : (takeParam name lines).2.IsClean := by
  rw [takeParam]
  cases last : (lines.filterMap (paramDoc? (nameKey name.toList))).getLast? with
  | none => exact tagDoc_isClean_empty
  | some doc =>
    obtain ⟨line, inside, found⟩ := List.mem_filterMap.mp (List.mem_of_getLast? last)
    exact paramDoc?_isClean (clean line inside) found

theorem bracedType?_eq_some {cs type rest : List Char} (found : bracedType? cs = some (type, rest)) :
    cs = type ++ rest := by
  rw [bracedType?.eq_def] at found
  split at found
  · obtain ⟨⟨inner, after⟩, cut, same⟩ := Option.map_eq_some_iff.mp found
    cases same
    rw [cutAtFirst?_eq_some cut]
    simp
  · cases found

theorem returnsDoc_isClean {cs : List Char} (clean : CleanText cs) : (returnsDoc cs).IsClean := by
  have start : skipSpace ((after? "s" cs).getD cs) <:+ cs := by
    refine (skipSpace_suffix _).trans ?_
    cases found : after? "s" cs with
    | none => exact List.suffix_refl _
    | some rest => exact after?_suffix found
  have startClean := clean.part start.isInfix
  have described : ∀ {rest : List Char}, CleanText rest →
      ∀ text ∈ (nonBlank? (restOfLine (skipSpace rest))).map String.ofList,
        CleanText text.toList := by
    intro rest restClean text found
    obtain ⟨cs, kept, rfl⟩ := Option.map_eq_some_iff.mp found
    rw [nonBlank?] at kept
    split at kept
    · cases kept
    · cases kept
      rw [String.toList_ofList]
      have inside := List.takeWhile_prefix (l := skipSpace rest) (· != '\n')
      exact restClean.part (inside.isInfix.trans (skipSpace_suffix rest).isInfix)
  rw [returnsDoc]
  dsimp only
  cases found : bracedType? (skipSpace ((after? "s" cs).getD cs)) with
  | none => exact ⟨by simp, described startClean⟩
  | some parts =>
    obtain ⟨type, rest⟩ := parts
    have split := bracedType?_eq_some found
    refine ⟨?_, described (startClean.part ?_)⟩
    · intro text isType
      cases isType
      rw [String.toList_ofList]
      have inside : type <:+: skipSpace ((after? "s" cs).getD cs) := by
        rw [split]
        exact (List.prefix_append _ _).isInfix
      apply startClean.part (List.IsInfix.trans _ inside)
      have bare := dropEndWhile_isPrefix (· == '}') (type.dropWhile (· == '{'))
      exact (trim_isInfix _).trans (bare.isInfix.trans (List.dropWhile_suffix _).isInfix)
    · rw [split]
      exact (List.suffix_append _ _).isInfix

/-- What clean lines say about a returned value is clean. -/
theorem takeReturns_isClean {lines : List String} (clean : ∀ line ∈ lines, CleanText line.toList) :
    ∀ doc ∈ (takeReturns lines).2, doc.IsClean := by
  intro doc found
  obtain ⟨line, inside, found⟩ := List.exists_of_findSome?_eq_some found
  obtain ⟨rest, tagged, rfl⟩ := Option.map_eq_some_iff.mp found
  obtain ⟨part, isEnd, tagged⟩ := leftmost?_eq_some tagged
  exact returnsDoc_isClean ((clean line inside).part ((after?_suffix tagged).trans isEnd).isInfix)

theorem tidy_clean {description : String} (clean : CleanText description.toList) :
    CleanText (tidy description).toList := by
  have trimmed := clean.part (trim_isInfix description.toList)
  rw [tidy, String.toList_ofList]
  split
  · rename_i rest start
    rw [start] at trimmed
    exact trimmed.part ((List.dropWhile_suffix _).trans (List.suffix_cons _ _)).isInfix
  · exact trimmed

end BrightDoc.Doc
