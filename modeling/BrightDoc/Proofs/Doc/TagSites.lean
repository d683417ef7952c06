import BrightDoc.Proofs.Doc.Escaping
import BrightDoc.Proofs.Doc.Tags

/-! # Parameter tags in escaped lines

A parameter tag is found by its type, the brackets around its name and the word of the name. All of this
stands in an escaped line just where it stands in the line. What is read from it differs in one way
only: an entity starts with a character that designates a type, so a name takes the start of an entity
that comes right after its word. -/

namespace BrightDoc.Doc

open BrightDoc.Text

/-- A parameter tag as it stands in a text: its type, whether its name stands in brackets, the word of
the name, and the text right after the word. -/
structure TagSite where
  type : Option (List Char)
  bracketed : Bool
  word : List Char
  rest : List Char

namespace TagSite

/-- The name of the parameter. -/
def name (s : TagSite) : List Char :=
  (Line.withDesignator (s.word, s.rest)).1

/-- The text after the tag, in a text that follows the name. -/
def tailOf (bracketed : Bool) (rest : List Char) : List Char :=
  if bracketed then
    ((cutAtLast? ']' (restOfLine rest)).map Prod.snd).getD [] ++ rest.dropWhile (· != '\n')
  else rest

/-- The text after the tag. -/
def tail (s : TagSite) : List Char :=
  tailOf s.bracketed (Line.withDesignator (s.word, s.rest)).2

/-- The tag. -/
def tag (s : TagSite) : ParameterTag :=
  parameterTag s.type s.name s.tail

/-- The same tag in the escaped text. -/
def escape (s : TagSite) : TagSite :=
  { s with type := s.type.map escapeMarkup, rest := escapeMarkup s.rest }

end TagSite

/-- The tag whose name starts the text, after its bracket if it has one. -/
def siteAt? (type : Option (List Char)) (bracketed : Bool) (cs : List Char) : Option TagSite :=
  if cs.takeWhile isWord = [] ∨ bracketed = true ∧ ']' ∉ restOfLine (cs.dropWhile isWord) then none
  else some { type, bracketed, word := cs.takeWhile isWord, rest := cs.dropWhile isWord }

/-- The tag whose name, with its bracket if it has one, starts the text. -/
def nameSite? (type : Option (List Char)) (cs : List Char) : Option TagSite :=
  if cs.head? = some '[' then siteAt? type true cs.tail else siteAt? type false cs

/-- A tag with room for a type, after its `@param`. -/
def typedSite? (cs : List Char) : Option TagSite :=
  (someSpace? cs).bind fun rest =>
    if rest.head? = some '{' then
      (cutAtFirst? '}' rest.tail).bind fun (type, rest) => (someSpace? rest).bind (nameSite? (some type))
    else if (cs.drop 1).head?.any isSpace then nameSite? none rest
    else none

/-- A tag without a type, after its `@param`. -/
def untypedSite? (cs : List Char) : Option TagSite :=
  (someSpace? cs).bind (nameSite? none)

/-- The parameter tag of a line. -/
def tagSite? (line : String) : Option TagSite :=
  (leftmost? (afterParam? typedSite?) line.toList).or
    (leftmost? (afterParam? untypedSite?) line.toList)

section Reading

theorem tagWord?_eq (cs : List Char) :
    tagWord? cs =
      if cs.takeWhile isWord = [] then none
      else some (Line.withDesignator (cs.takeWhile isWord, cs.dropWhile isWord)) := by
  rw [tagWord?]
  split
  · rename_i empty
    rw [if_pos empty]
  · rename_i nonempty
    rw [if_neg nonempty]

theorem isDesignator_apart {c : Char} (designates : Line.isDesignator c = true) :
    c ≠ ']' ∧ c ≠ '\n' := by
  constructor
  · rintro rfl
    cases designates
  · rintro rfl
    cases designates

theorem head?_ne_of_forall_ne {c : Char} {cs : List Char} (other : ∀ rest, cs = c :: rest → False) :
    cs.head? ≠ some c := by
  intro first
  obtain ⟨rest, rfl⟩ := List.head?_eq_some_iff.mp first
  exact other rest rfl

/-- A bracket is looked for after the designator, which makes no difference. -/
theorem mem_restOfLine_withDesignator (word rest : List Char) :
    ']' ∈ restOfLine (Line.withDesignator (word, rest)).2 ↔ ']' ∈ restOfLine rest := by
  cases rest with
  | nil => exact Iff.rfl
  | cons c rest =>
    rw [Line.withDesignator]
    split
    · rename_i designates
      obtain ⟨notBracket, notFeed⟩ := isDesignator_apart designates
      simp [restOfLine, notFeed, Ne.symm notBracket]
    · exact Iff.rfl

theorem siteAt?_map_tag (type : Option (List Char)) (bracketed : Bool) (cs : List Char) :
    (siteAt? type bracketed cs).map TagSite.tag =
      (tagWord? cs).bind fun parts =>
        if bracketed = true ∧ ']' ∉ restOfLine parts.2 then none
        else some (parameterTag type parts.1 (TagSite.tailOf bracketed parts.2)) := by
  rw [siteAt?, tagWord?_eq]
  generalize cs.takeWhile isWord = word
  generalize cs.dropWhile isWord = rest
  by_cases empty : word = []
  · simp [empty]
  · rw [if_neg empty, Option.bind_some]
    simp only [mem_restOfLine_withDesignator]
    by_cases unclosed : bracketed = true ∧ ']' ∉ restOfLine rest
    · rw [if_pos unclosed, if_pos (Or.inr unclosed)]
      rfl
    · rw [if_neg unclosed, if_neg (not_or.mpr ⟨empty, unclosed⟩)]
      rfl

/-- A tag is read from its name on. -/
theorem tagName?_bind_eq (type : Option (List Char)) (cs : List Char) :
    ((tagName? cs).bind fun parts => some (parameterTag type parts.1 parts.2)) =
      (nameSite? type cs).map TagSite.tag := by
  rw [tagName?.eq_def, nameSite?]
  split
  · rename_i cs
    rw [if_pos List.head?_cons, List.tail_cons, siteAt?_map_tag]
    simp only [Option.bind_eq_bind, Option.bind_assoc, Option.pure_def, Option.bind_some]
    congr 1
    funext parts
    cases cut : cutAtLast? ']' (restOfLine parts.2) with
    | none => simp [cutAtLast?_eq_none_iff.mp cut]
    | some around =>
      have found : ']' ∈ restOfLine parts.2 := by
        rw [(cutAtLast?_eq_some cut).1]
        simp
      simp [found, cut, TagSite.tailOf]
  · rename_i other
    rw [if_neg (head?_ne_of_forall_ne other), siteAt?_map_tag]
    simp [TagSite.tailOf]

theorem typedParameterTag?_eq (cs : List Char) :
    typedParameterTag? cs = (typedSite? cs).map TagSite.tag := by
  rw [typedParameterTag?, typedSite?]
  cases someSpace? cs with
  | none => rfl
  | some rest =>
    simp only [Option.bind_eq_bind, Option.bind_some, Option.pure_def]
    split
    · rename_i inner
      rw [if_pos List.head?_cons, List.tail_cons, Option.map_bind]
      congr 1
      funext parts
      change _ = ((someSpace? parts.2).bind (nameSite? (some parts.1))).map TagSite.tag
      rw [Option.map_bind]
      exact Option.bind_congr fun start _ => tagName?_bind_eq (some parts.1) start
    · rename_i other
      rw [if_neg (head?_ne_of_forall_ne other)]
      split
      · exact tagName?_bind_eq none rest
      · rfl

theorem untypedParameterTag?_eq (cs : List Char) :
    untypedParameterTag? cs = (untypedSite? cs).map TagSite.tag := by
  rw [untypedParameterTag?, untypedSite?, Option.map_bind]
  simp only [Option.bind_eq_bind, Option.pure_def, tagName?_bind_eq]
  rfl

theorem leftmost?_afterParam?_map {α β : Type} (f : α → β) (recognise? : List Char → Option α)
    (cs : List Char) :
    leftmost? (afterParam? fun rest => (recognise? rest).map f) cs =
      (leftmost? (afterParam? recognise?) cs).map f := by
  have here : ∀ cs, afterParam? (fun rest => (recognise? rest).map f) cs =
      (afterParam? recognise? cs).map f := by
    intro cs
    rw [afterParam?, afterParam?, Option.map_bind]
    rfl
  induction cs with
  | nil => exact here []
  | cons c cs ih =>
    rw [leftmost?, leftmost?, here, ih]
    cases afterParam? recognise? (c :: cs) with
    | none => rfl
    | some a => rfl

/-- The tag of a line is the one at its site. -/
theorem parameterTag?_eq (line : String) : parameterTag? line = (tagSite? line).map TagSite.tag := by
  rw [tagSite?, Option.map_or, ← leftmost?_afterParam?_map, ← leftmost?_afterParam?_map]
  simp only [← typedParameterTag?_eq, ← untypedParameterTag?_eq]
  rfl

end Reading

section Escaping

theorem siteAt?_escapeMarkup (type : Option (List Char)) (bracketed : Bool) (cs : List Char) :
    siteAt? (type.map escapeMarkup) bracketed (escapeMarkup cs) =
      (siteAt? type bracketed cs).map TagSite.escape := by
  have word : (escapeMarkup cs).takeWhile isWord = cs.takeWhile isWord := by
    rw [takeWhile_escapeMarkup respected_isWord, escapeMarkup_of_isPlain]
    refine isPlain_iff.mpr fun c member isMarkup => ?_
    have word := List.mem_takeWhile_imp member
    have wordless : isWord c = false := eq_false_of_mem_markup (by decide) isMarkup
    rw [wordless] at word
    cases word
  rw [siteAt?, siteAt?, word, dropWhile_escapeMarkup respected_isWord, restOfLine_escapeMarkup]
  simp only [mem_escapeMarkup_iff (show Untouched ']' by decide)]
  split
  · rfl
  · rfl

theorem nameSite?_escapeMarkup (type : Option (List Char)) (cs : List Char) :
    nameSite? (type.map escapeMarkup) (escapeMarkup cs) = (nameSite? type cs).map TagSite.escape := by
  have untouched : Untouched '[' := by decide
  rw [nameSite?, nameSite?]
  simp only [head?_escapeMarkup_iff untouched]
  split
  · rename_i bracket
    obtain ⟨rest, rfl⟩ := List.head?_eq_some_iff.mp bracket
    rw [escapeMarkup_cons, untouched.entity]
    exact siteAt?_escapeMarkup type true rest
  · exact siteAt?_escapeMarkup type false cs

theorem typedSite?_escapeMarkup (cs : List Char) :
    typedSite? (escapeMarkup cs) = (typedSite? cs).map TagSite.escape := by
  have untouched : Untouched '{' := by decide
  have second : ∀ rest, someSpace? cs = some rest →
      ((escapeMarkup cs).drop 1).head?.any isSpace = (cs.drop 1).head?.any isSpace := by
    intro rest spaced
    cases cs with
    | nil => rfl
    | cons c cs =>
      rw [someSpace?] at spaced
      split at spaced
      · rename_i space
        rw [escapeMarkup_cons, entity_of_isSpace space]
        exact head?_any_escapeMarkup respected_isSpace cs
      · cases spaced
  rw [typedSite?, typedSite?, someSpace?_escapeMarkup, Option.bind_map, Option.map_bind]
  refine Option.bind_congr fun rest spaced => ?_
  simp only [Function.comp, head?_escapeMarkup_iff untouched, second rest spaced]
  split
  · rename_i brace
    obtain ⟨inner, rfl⟩ := List.head?_eq_some_iff.mp brace
    rw [escapeMarkup_cons, untouched.entity, List.singleton_append, List.tail_cons, List.tail_cons,
      cutAtFirst?_escapeMarkup (by decide), Option.bind_map, Option.map_bind]
    congr 1
    funext parts
    simp only [Function.comp, Prod.map_fst, Prod.map_snd, someSpace?_escapeMarkup, Option.bind_map,
      Option.map_bind]
    congr 1
    funext start
    exact nameSite?_escapeMarkup (some parts.1) start
  · split
    · exact nameSite?_escapeMarkup none rest
    · rfl

theorem untypedSite?_escapeMarkup (cs : List Char) :
    untypedSite? (escapeMarkup cs) = (untypedSite? cs).map TagSite.escape := by
  rw [untypedSite?, untypedSite?, someSpace?_escapeMarkup, Option.bind_map, Option.map_bind]
  congr 1
  funext rest
  exact nameSite?_escapeMarkup none rest

/-- A line has its tag where the escaped line has it. -/
theorem tagSite?_escapeText (line : String) :
    tagSite? (escapeText line) = (tagSite? line).map TagSite.escape := by
  rw [tagSite?, tagSite?, escapeText, String.toList_ofList, leftmost?_escapeMarkup,
    leftmost?_escapeMarkup, Option.map_or, ← leftmost?_afterParam?_map, ← leftmost?_afterParam?_map]
  simp only [typedSite?_escapeMarkup, untypedSite?_escapeMarkup]

end Escaping

section Found

/-- The tag is found in the text: its name starts with a word, and what comes after ends the text. -/
structure TagSite.FoundIn (s : TagSite) (cs : List Char) : Prop where
  isEnd : s.rest <:+ cs
  worded : ∀ c ∈ s.word, isWord c = true

variable {s : TagSite}

theorem TagSite.FoundIn.trans {part cs : List Char} (found : s.FoundIn part) (isEnd : part <:+ cs) :
    s.FoundIn cs :=
  ⟨found.isEnd.trans isEnd, found.worded⟩

theorem foundIn_of_nameSite? {type : Option (List Char)} {cs : List Char}
    (found : nameSite? type cs = some s) : s.FoundIn cs := by
  have ofWord : ∀ {bracketed cs}, siteAt? type bracketed cs = some s → s.FoundIn cs := by
    intro bracketed cs found
    rw [siteAt?] at found
    split at found
    · cases found
    · cases found
      exact ⟨List.dropWhile_suffix isWord, fun c member => List.mem_takeWhile_imp member⟩
  rw [nameSite?] at found
  split at found
  · exact (ofWord found).trans (List.tail_suffix cs)
  · exact ofWord found

theorem foundIn_of_typedSite? {cs : List Char} (found : typedSite? cs = some s) : s.FoundIn cs := by
  obtain ⟨rest, spaced, found⟩ := Option.bind_eq_some_iff.mp found
  refine TagSite.FoundIn.trans ?_ (someSpace?_suffix spaced)
  split at found
  · obtain ⟨⟨type, afterType⟩, cut, found⟩ := Option.bind_eq_some_iff.mp found
    obtain ⟨start, spaced, found⟩ := Option.bind_eq_some_iff.mp found
    have inside : afterType <:+ rest.tail := by
      rw [cutAtFirst?_eq_some cut]
      exact (List.suffix_cons _ _).trans (List.suffix_append _ _)
    exact (foundIn_of_nameSite? found).trans
      ((someSpace?_suffix spaced).trans (inside.trans (List.tail_suffix rest)))
  · split at found
    · exact foundIn_of_nameSite? found
    · cases found

theorem foundIn_of_untypedSite? {cs : List Char} (found : untypedSite? cs = some s) :
    s.FoundIn cs := by
  obtain ⟨rest, spaced, found⟩ := Option.bind_eq_some_iff.mp found
  exact (foundIn_of_nameSite? found).trans (someSpace?_suffix spaced)

/-- The tag of a line is found in the line. -/
theorem foundIn_of_tagSite? {line : String} (found : tagSite? line = some s) :
    s.FoundIn line.toList := by
  have ofTag : ∀ {recognise? : List Char → Option TagSite},
      (∀ {cs}, recognise? cs = some s → s.FoundIn cs) →
      leftmost? (afterParam? recognise?) line.toList = some s → s.FoundIn line.toList := by
    intro recognise? sound found
    obtain ⟨part, isEnd, here⟩ := leftmost?_eq_some found
    obtain ⟨rest, tagged, here⟩ := Option.bind_eq_some_iff.mp here
    exact (sound here).trans ((after?_suffix tagged).trans isEnd)
  rcases Option.or_eq_some_iff.mp found with typed | ⟨-, untyped⟩
  · exact ofTag foundIn_of_typedSite? typed
  · exact ofTag foundIn_of_untypedSite? untyped

end Found

/-- What a tag says, with its markup escaped. -/
def TagDoc.escape (doc : TagDoc) : TagDoc :=
  { type := doc.type.map escapeText, description := doc.description.map escapeText }

namespace TagSite

/-- The word has markup right after it that is no ampersand. Escaped, it starts with one, which goes to
the name. -/
def IsRenamed (s : TagSite) : Prop :=
  ∃ c rest, s.rest = c :: rest ∧ c ∈ markup ∧ c ≠ '&'

/-- The name ends in an ampersand and stands in no brackets. Escaped, the ampersand is an entity, of
which only the start goes to the name. -/
def IsSplit (s : TagSite) : Prop :=
  s.bracketed = false ∧ ∃ rest, s.rest = '&' :: rest

theorem parameterTag_doc_escape (type : Option (List Char)) (name name' rest : List Char) :
    (parameterTag (type.map escapeMarkup) name (escapeMarkup rest)).doc =
      (parameterTag type name' rest).doc.escape := by
  have text : ∀ cs, escapeText (String.ofList cs) = String.ofList (escapeMarkup cs) := by
    intro cs
    rw [escapeText, String.toList_ofList]
  have typeSaid : ((type.map escapeMarkup).bind nonBlank?).map (fun cs => String.ofList (trim cs)) =
      ((type.bind nonBlank?).map fun cs => String.ofList (trim cs)).map escapeText := by
    cases type with
    | none => rfl
    | some type =>
      rw [Option.map_some, Option.bind_some, Option.bind_some, nonBlank?_escapeMarkup, Option.map_map,
        Option.map_map]
      congr 1
      funext cs
      simp only [Function.comp, trim_escapeMarkup, text]
  have described : (nonBlank? (restOfLine
        ((escapeMarkup rest).dropWhile fun c => isSpace c || c == '-' || c == '|'))).map String.ofList =
      ((nonBlank? (restOfLine (rest.dropWhile fun c => isSpace c || c == '-' || c == '|'))).map
        String.ofList).map escapeText := by
    rw [dropWhile_escapeMarkup (by decide), restOfLine_escapeMarkup, nonBlank?_escapeMarkup,
      Option.map_map, Option.map_map]
    congr 1
    funext cs
    exact (text cs).symm
  rw [parameterTag, parameterTag, TagDoc.escape]
  dsimp only
  rw [typeSaid, described]

theorem tailOf_escapeMarkup (bracketed : Bool) (rest : List Char) :
    tailOf bracketed (escapeMarkup rest) = escapeMarkup (tailOf bracketed rest) := by
  rw [tailOf, tailOf]
  split
  · have cut : ((cutAtLast? ']' (restOfLine (escapeMarkup rest))).map Prod.snd).getD [] =
        escapeMarkup (((cutAtLast? ']' (restOfLine rest)).map Prod.snd).getD []) := by
      rw [restOfLine_escapeMarkup, cutAtLast?_escapeMarkup (by decide)]
      cases cutAtLast? ']' (restOfLine rest) with
      | none => rfl
      | some parts => rfl
    rw [cut, dropWhile_escapeMarkup (by decide), escapeMarkup_append]
  · rfl

/-- What follows a name in brackets is found from its word on. -/
theorem tail_of_bracketed {s : TagSite} (bracketed : s.bracketed = true) :
    s.tail = tailOf true s.rest := by
  have skip : ∀ {c : Char} (rest : List Char), Line.isDesignator c = true →
      tailOf true rest = tailOf true (c :: rest) := by
    intro c rest designates
    obtain ⟨notBracket, notFeed⟩ := isDesignator_apart designates
    have free : ']' ∉ [c] := fun member => notBracket (List.mem_singleton.mp member).symm
    have line : restOfLine (c :: rest) = [c] ++ restOfLine rest := by
      simp [restOfLine, notFeed]
    rw [tailOf, tailOf, if_pos rfl, if_pos rfl, line, cutAtLast?_append_of_notMem free,
      Option.map_map, List.dropWhile_cons_of_pos (by simpa using notFeed)]
    rfl
  rw [tail, bracketed]
  cases split : s.rest with
  | nil => rfl
  | cons c rest =>
    rw [Line.withDesignator]
    split
    · rename_i designates
      exact skip rest designates
    · rfl

theorem name_of_isRenamed {s : TagSite} (renamed : s.IsRenamed) :
    s.name = s.word ∧ s.escape.name = s.word ++ ['&'] := by
  obtain ⟨c, rest, split, member, other⟩ := renamed
  have undesignated : Line.isDesignator c = false := by
    have others : (markup.any fun c => c != '&' && Line.isDesignator c) = false := by decide
    simpa [other] using eq_false_of_mem_markup others member
  obtain ⟨entityName, written⟩ := entity_of_mem member
  constructor
  · rw [name, split, Line.withDesignator, undesignated]
    rfl
  · rw [name, escape, split, escapeMarkup_cons, written]
    rfl

theorem withDesignator_escapeMarkup {word rest : List Char} (plain : ∀ c ∈ rest.head?, c ∉ markup) :
    Line.withDesignator (word, escapeMarkup rest) =
      ((Line.withDesignator (word, rest)).1, escapeMarkup (Line.withDesignator (word, rest)).2) := by
  cases rest with
  | nil => rfl
  | cons c rest =>
    rw [escapeMarkup_cons, entity_of_notMem (plain c rfl), List.singleton_append, Line.withDesignator,
      Line.withDesignator]
    split
    · rfl
    · rw [escapeMarkup_cons, entity_of_notMem (plain c rfl)]
      rfl

theorem withDesignator_escape {s : TagSite} (same : ¬ s.IsRenamed)
    (unmarked : ¬ ∃ rest, s.rest = '&' :: rest) :
    Line.withDesignator (s.word, escapeMarkup s.rest) =
      ((Line.withDesignator (s.word, s.rest)).1,
        escapeMarkup (Line.withDesignator (s.word, s.rest)).2) := by
  apply withDesignator_escapeMarkup
  intro c first member
  obtain ⟨rest, split⟩ := List.head?_eq_some_iff.mp first
  refine same ⟨c, rest, split, member, ?_⟩
  rintro rfl
  exact unmarked ⟨rest, split⟩

theorem name_escape {s : TagSite} (same : ¬ s.IsRenamed) : s.escape.name = s.name := by
  by_cases marked : ∃ rest, s.rest = '&' :: rest
  · obtain ⟨rest, split⟩ := marked
    rw [name, name, escape, split]
    rfl
  · rw [name, escape, withDesignator_escape same marked]
    rfl

/-- Escaping escapes what a tag says, unless it splits the name. -/
theorem doc_escape {s : TagSite} (same : ¬ s.IsRenamed) (whole : ¬ s.IsSplit) :
    s.escape.tag.doc = s.tag.doc.escape := by
  have tail : s.escape.tail = escapeMarkup s.tail := by
    cases brackets : s.bracketed with
    | true =>
      rw [tail_of_bracketed brackets, tail_of_bracketed (s := s.escape) brackets, ← tailOf_escapeMarkup]
      rfl
    | false =>
      have unmarked : ¬ ∃ rest, s.rest = '&' :: rest := fun marked => whole ⟨brackets, marked⟩
      rw [TagSite.tail, TagSite.tail, escape, withDesignator_escape same unmarked, ← tailOf_escapeMarkup]
  rw [tag, tail]
  exact parameterTag_doc_escape s.type _ _ _

/-- Where escaping splits the name, the tag says something else. -/
theorem doc_of_isSplit {s : TagSite} (split : s.IsSplit) (feedless : '\n' ∉ s.rest) :
    s.escape.tag.doc ≠ s.tag.doc.escape := by
  obtain ⟨unbracketed, rest, marked⟩ := split
  rw [marked, List.mem_cons, not_or] at feedless
  have said : s.tag.doc.description =
      (nonBlank? (restOfLine (rest.dropWhile fun c => isSpace c || c == '-' || c == '|'))).map
        String.ofList := by
    rw [tag, tail, unbracketed, marked]
    rfl
  have saidEscaped : s.escape.tag.doc.description =
      some (String.ofList ("amp;".toList ++ escapeMarkup rest)) := by
    have line : restOfLine ("amp;".toList ++ escapeMarkup rest) =
        "amp;".toList ++ escapeMarkup rest := by
      refine (restOfLine_of_feedless ?_).1
      rw [List.mem_append, not_or, mem_escapeMarkup_iff (by decide)]
      exact ⟨by decide, feedless.2⟩
    rw [tag, tail, escape, unbracketed, marked]
    change (nonBlank? (restOfLine ("amp;".toList ++ escapeMarkup rest))).map String.ofList = _
    rw [line]
    rfl
  intro same
  have descriptions := congrArg TagDoc.description same
  rw [saidEscaped, TagDoc.escape, said] at descriptions
  -- The entity makes the escaped description longer than what is left of the text can be.
  obtain ⟨text, isText, written⟩ := Option.map_eq_some_iff.mp descriptions.symm
  obtain ⟨cs, nonBlank, rfl⟩ := Option.map_eq_some_iff.mp isText
  have inside : cs <:+: rest := by
    rw [nonBlank?] at nonBlank
    split at nonBlank
    · cases nonBlank
    · cases nonBlank
      exact (List.takeWhile_prefix _).isInfix.trans (List.dropWhile_suffix _).isInfix
  obtain ⟨before, after, split⟩ := inside
  have lengths := congrArg (fun s : String => s.toList.length) written
  simp only [escapeText, String.toList_ofList, ← split, escapeMarkup_append,
    List.length_append] at lengths
  have four : "amp;".toList.length = 4 := rfl
  omega

end TagSite

end BrightDoc.Doc
