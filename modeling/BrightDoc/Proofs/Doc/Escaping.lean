import BrightDoc.Doc.Tag
import BrightDoc.Proofs.Doc.Closers

/-! # Escaped texts

Escaping puts entities in the place of single characters, and a single pass over the escaped text takes
them back. Whatever a text is cut at is found again in the escaped text, and the parts are the escaped
parts, as long as no entity is cut in two: the runs of a property of characters, the places of a mark,
and the tags. Main statement: escaping loses nothing, and a comment is escaped line by line. -/

namespace BrightDoc.Doc

open BrightDoc.Text

/-- The characters that are written as entities. -/
def markup : List Char :=
  ['&', '<', '>', '"', '\'']

theorem entity_of_notMem {c : Char} (plain : c ∉ markup) : entity c = [c] := by
  unfold entity
  split
  all_goals first
    | exact absurd (by decide) plain
    | rfl

theorem entity_of_mem {c : Char} (member : c ∈ markup) : ∃ name, entity c = '&' :: name ++ [';'] := by
  have each : (markup.all fun c => entity c == '&' :: (entity c).tail.dropLast ++ [';']) = true := by
    decide
  exact ⟨_, beq_iff_eq.mp (List.all_eq_true.mp each c member)⟩

theorem eq_false_of_mem_markup {p : Char → Bool} (none : markup.any p = false) {c : Char}
    (member : c ∈ markup) : p c = false :=
  Bool.eq_false_iff.mpr (List.any_eq_false.mp none c member)

/-- Whether a text has no markup. -/
def isPlain (cs : List Char) : Bool :=
  cs.all fun c => !markup.contains c

theorem isPlain_iff {cs : List Char} : isPlain cs = true ↔ ∀ c ∈ cs, c ∉ markup := by
  simp [isPlain]

theorem entity_ne_nil (c : Char) : entity c ≠ [] := by
  by_cases member : c ∈ markup
  · obtain ⟨name, written⟩ := entity_of_mem member
    simp [written]
  · simp [entity_of_notMem member]

theorem escapeMarkup_cons (c : Char) (cs : List Char) :
    escapeMarkup (c :: cs) = entity c ++ escapeMarkup cs := by
  rw [escapeMarkup, List.flatMap_cons, escapeMarkup]

theorem escapeMarkup_append (cs ds : List Char) :
    escapeMarkup (cs ++ ds) = escapeMarkup cs ++ escapeMarkup ds := by
  rw [escapeMarkup, List.flatMap_append, escapeMarkup, escapeMarkup]

theorem escapeMarkup_of_isPlain {cs : List Char} (plain : isPlain cs = true) : escapeMarkup cs = cs := by
  rw [isPlain_iff] at plain
  induction cs with
  | nil => rfl
  | cons c cs ih =>
    rw [List.forall_mem_cons] at plain
    rw [escapeMarkup_cons, entity_of_notMem plain.1, ih plain.2]
    rfl

section Entities

/-- The text with the entities of markup replaced by what they stand for, in one pass from left to right:
a character that comes out of an entity is not read again. -/
def unescape : List Char → List Char
  | '&' :: 'a' :: 'm' :: 'p' :: ';' :: cs => '&' :: unescape cs
  | '&' :: 'l' :: 't' :: ';' :: cs => '<' :: unescape cs
  | '&' :: 'g' :: 't' :: ';' :: cs => '>' :: unescape cs
  | '&' :: 'q' :: 'u' :: 'o' :: 't' :: ';' :: cs => '"' :: unescape cs
  | '&' :: 'a' :: 'p' :: 'o' :: 's' :: ';' :: cs => '\'' :: unescape cs
  | c :: cs => c :: unescape cs
  | [] => []

theorem unescape_cons_of_ne {c : Char} (other : c ≠ '&') (cs : List Char) :
    unescape (c :: cs) = c :: unescape cs := by
  rw [unescape.eq_def]
  split
  all_goals simp_all

theorem unescape_entity (c : Char) (cs : List Char) : unescape (entity c ++ cs) = c :: unescape cs := by
  by_cases member : c ∈ markup
  · simp only [markup, List.mem_cons, List.not_mem_nil, or_false] at member
    rcases member with rfl | rfl | rfl | rfl | rfl
    all_goals rfl
  · have other : c ≠ '&' := fun same => member (same ▸ List.mem_cons_self)
    rw [entity_of_notMem member, List.singleton_append, unescape_cons_of_ne other]

theorem unescape_escapeMarkup (cs : List Char) : unescape (escapeMarkup cs) = cs := by
  induction cs with
  | nil => rfl
  | cons c cs ih => rw [escapeMarkup_cons, unescape_entity, ih]

/-- The words that markup is written with. -/
def entities : List String :=
  ["&amp;", "&lt;", "&gt;", "&quot;", "&apos;"]

theorem exists_word_of_mem {c : Char} (member : c ∈ markup) :
    ∃ word ∈ entities, word.toList = entity c := by
  have words : markup.map entity = entities.map String.toList := by rfl
  apply List.mem_map.mp
  rw [← words]
  exact List.mem_map_of_mem member

theorem notMem_escapeMarkup {mark : Char} (escaped : mark ∈ ['<', '>', '"', '\'']) (cs : List Char) :
    mark ∉ escapeMarkup cs := by
  have apart : ∀ word ∈ entities, ∀ mark ∈ ['<', '>', '"', '\''], mark ∉ word.toList := by
    simp [entities]
  intro inside
  obtain ⟨c, -, inside⟩ := List.mem_flatMap.mp inside
  by_cases member : c ∈ markup
  · obtain ⟨word, listed, written⟩ := exists_word_of_mem member
    rw [← written] at inside
    exact apart word listed mark escaped inside
  · rw [entity_of_notMem member, List.mem_singleton] at inside
    exact member (inside ▸ List.mem_cons_of_mem _ escaped)

theorem exists_entity_of_ampersand {cs rest : List Char} (ends : '&' :: rest <:+ escapeMarkup cs) :
    ∃ word ∈ entities, word.toList <+: '&' :: rest := by
  have single : ∀ word ∈ entities, '&' ∉ word.toList.tail := by simp [entities]
  induction cs with
  | nil => cases List.suffix_nil.mp ends
  | cons c cs ih =>
    rw [escapeMarkup_cons] at ends
    by_cases member : c ∈ markup
    · obtain ⟨word, listed, same⟩ := exists_word_of_mem member
      obtain ⟨name, written⟩ := entity_of_mem member
      have free := single word listed
      rw [same, written] at free
      rw [written, List.cons_append, List.cons_append, List.suffix_cons_iff] at ends
      rcases ends with here | ends
      · refine ⟨word, listed, ?_⟩
        rw [here, same, written]
        exact List.prefix_append _ _
      · exact ih (suffix_of_notMem free ends)
    · have other : '&' ∉ [c] := by
        rw [List.mem_singleton]
        exact fun same => member (same ▸ List.mem_cons_self)
      rw [entity_of_notMem member] at ends
      exact ih (suffix_of_notMem other ends)

end Entities

section Runs

/-- Escaping respects the property: an entity has it throughout where its character has it, and at
neither end where its character does not have it. -/
def Respected (p : Char → Bool) : Prop :=
  (markup.all fun c => if p c then (entity c).all p else !p '&' && !p ';') = true

instance (p : Char → Bool) : Decidable (Respected p) :=
  inferInstanceAs (Decidable (_ = true))

theorem respected_isSpace : Respected isSpace := by decide

theorem respected_isWhite : Respected isWhite := by decide

-- The letters inside an entity do not matter, since a word would have to reach its ampersand first.
theorem respected_isWord : Respected isWord := by decide

variable {p : Char → Bool}

theorem Respected.inside (respected : Respected p) {c : Char} (holds : p c = true) :
    ∀ d ∈ entity c, p d = true := by
  by_cases member : c ∈ markup
  · have whole := List.all_eq_true.mp respected c member
    rwa [if_pos holds, List.all_eq_true] at whole
  · simpa [entity_of_notMem member] using holds

theorem Respected.outside (respected : Respected p) {c : Char} (fails : p c = false) :
    ∃ first last rest start, entity c = first :: rest ∧ entity c = start ++ [last] ∧
      p first = false ∧ p last = false := by
  by_cases member : c ∈ markup
  · have ends := List.all_eq_true.mp respected c member
    rw [fails, if_neg (by decide), Bool.and_eq_true, Bool.not_eq_true', Bool.not_eq_true'] at ends
    obtain ⟨name, written⟩ := entity_of_mem member
    exact ⟨'&', ';', name ++ [';'], '&' :: name, written, written, ends⟩
  · exact ⟨c, c, [], [], entity_of_notMem member, entity_of_notMem member, fails, fails⟩

theorem takeWhile_escapeMarkup (respected : Respected p) (cs : List Char) :
    (escapeMarkup cs).takeWhile p = escapeMarkup (cs.takeWhile p) := by
  induction cs with
  | nil => rfl
  | cons c cs ih =>
    rw [escapeMarkup_cons, List.takeWhile_cons]
    cases holds : p c with
    | true =>
      rw [List.takeWhile_append_of_pos (respected.inside holds), ih, if_pos rfl, escapeMarkup_cons]
    | false =>
      obtain ⟨first, -, rest, -, written, -, fails, -⟩ := respected.outside holds
      rw [written, List.cons_append, List.takeWhile_cons_of_neg (by simp [fails]), if_neg (by decide)]
      rfl

theorem dropWhile_escapeMarkup (respected : Respected p) (cs : List Char) :
    (escapeMarkup cs).dropWhile p = escapeMarkup (cs.dropWhile p) := by
  have split := List.takeWhile_append_dropWhile (p := p) (l := escapeMarkup cs)
  have escaped : escapeMarkup cs = escapeMarkup (cs.takeWhile p) ++ escapeMarkup (cs.dropWhile p) := by
    rw [← escapeMarkup_append, List.takeWhile_append_dropWhile]
  rw [takeWhile_escapeMarkup respected] at split
  exact List.append_cancel_left (split.trans escaped)

theorem head?_any_escapeMarkup (respected : Respected p) (cs : List Char) :
    (escapeMarkup cs).head?.any p = cs.head?.any p := by
  cases cs with
  | nil => rfl
  | cons c cs =>
    rw [escapeMarkup_cons]
    cases holds : p c with
    | true =>
      obtain ⟨first, rest, written⟩ := List.exists_cons_of_ne_nil (entity_ne_nil c)
      have inside := respected.inside holds first (written ▸ List.mem_cons_self)
      simp [written, inside, holds]
    | false =>
      obtain ⟨first, -, rest, -, written, -, fails, -⟩ := respected.outside holds
      simp [written, fails, holds]

theorem all_escapeMarkup (respected : Respected p) (cs : List Char) :
    (escapeMarkup cs).all p = cs.all p := by
  induction cs with
  | nil => rfl
  | cons c cs ih =>
    rw [escapeMarkup_cons, List.all_append, List.all_cons, ih]
    congr 1
    cases holds : p c with
    | true => exact List.all_eq_true.mpr (respected.inside holds)
    | false =>
      obtain ⟨first, -, rest, -, written, -, fails, -⟩ := respected.outside holds
      rw [written, List.all_cons, fails, Bool.false_and]

theorem dropEndWhile_escapeMarkup (respected : Respected p) (cs : List Char) :
    dropEndWhile p (escapeMarkup cs) = escapeMarkup (dropEndWhile p cs) := by
  have ofEntity : ∀ c, dropEndWhile p (entity c) = if p c then [] else entity c := by
    intro c
    split
    · rename_i holds
      exact dropEndWhile_eq_nil_iff.mpr (List.all_eq_true.mpr (respected.inside holds))
    · rename_i fails
      obtain ⟨-, last, -, start, -, written, -, ends⟩ := respected.outside (Bool.eq_false_iff.mpr fails)
      rw [written, dropEndWhile_append_cons p ends start []]
      rfl
  induction cs with
  | nil => rfl
  | cons c cs ih =>
    rw [escapeMarkup_cons, dropEndWhile_append, ih, ofEntity, dropEndWhile]
    cases dropEndWhile p cs with
    | nil =>
      rw [if_pos (show escapeMarkup [] = [] from rfl)]
      split
      · rfl
      · exact (List.append_nil _).symm
    | cons d ds => rw [if_neg (by simp [escapeMarkup_cons, entity_ne_nil]), ← escapeMarkup_cons]

theorem trim_escapeMarkup (cs : List Char) : trim (escapeMarkup cs) = escapeMarkup (trim cs) := by
  rw [trim, trimEnd, dropEndWhile_escapeMarkup respected_isWhite, trimStart,
    dropWhile_escapeMarkup respected_isWhite]
  rfl

theorem entity_of_isSpace {c : Char} (space : isSpace c = true) : entity c = [c] := by
  apply entity_of_notMem
  intro member
  have spaceless : isSpace c = false := eq_false_of_mem_markup (by decide) member
  rw [spaceless] at space
  cases space

theorem someSpace?_escapeMarkup (cs : List Char) :
    someSpace? (escapeMarkup cs) = (someSpace? cs).map escapeMarkup := by
  cases cs with
  | nil => rfl
  | cons c cs =>
    by_cases space : isSpace c = true
    · rw [escapeMarkup_cons, entity_of_isSpace space, List.singleton_append, someSpace?, if_pos space,
        someSpace?, if_pos space, skipSpace, dropWhile_escapeMarkup respected_isSpace]
      rfl
    · obtain ⟨first, -, rest, -, written, -, fails, -⟩ :=
        respected_isSpace.outside (Bool.eq_false_iff.mpr space)
      rw [escapeMarkup_cons, written, List.cons_append, someSpace?, if_neg (by simp [fails]), someSpace?,
        if_neg space]
      rfl

theorem restOfLine_escapeMarkup (cs : List Char) :
    restOfLine (escapeMarkup cs) = escapeMarkup (restOfLine cs) :=
  takeWhile_escapeMarkup (by decide) cs

theorem nonBlank?_escapeMarkup (cs : List Char) :
    nonBlank? (escapeMarkup cs) = (nonBlank? cs).map escapeMarkup := by
  rw [nonBlank?, nonBlank?, isAllWhite, all_escapeMarkup respected_isWhite, ← isAllWhite]
  split
  · rfl
  · rfl

end Runs

section Marks

/-- The character has nothing to do with escaping: it is no markup, and no entity has it. -/
def Untouched (mark : Char) : Prop :=
  mark ∉ markup ∧ (markup.any fun c => (entity c).contains mark) = false

instance (mark : Char) : Decidable (Untouched mark) :=
  inferInstanceAs (Decidable (_ ∧ _))

variable {mark : Char}

theorem Untouched.entity (untouched : Untouched mark) : entity mark = [mark] :=
  entity_of_notMem untouched.1

theorem Untouched.notMem (untouched : Untouched mark) {c : Char} (other : c ≠ mark) :
    mark ∉ Doc.entity c := by
  by_cases member : c ∈ markup
  · simpa using eq_false_of_mem_markup untouched.2 member
  · rw [entity_of_notMem member, List.mem_singleton]
    exact Ne.symm other

theorem mem_escapeMarkup_iff (untouched : Untouched mark) {cs : List Char} :
    mark ∈ escapeMarkup cs ↔ mark ∈ cs := by
  rw [escapeMarkup, List.mem_flatMap]
  constructor
  · rintro ⟨c, member, inside⟩
    by_cases same : c = mark
    · exact same ▸ member
    · exact absurd inside (untouched.notMem same)
  · intro member
    exact ⟨mark, member, by simp [untouched.entity]⟩

theorem head?_escapeMarkup_iff (untouched : Untouched mark) {cs : List Char} :
    (escapeMarkup cs).head? = some mark ↔ cs.head? = some mark := by
  cases cs with
  | nil => exact Iff.rfl
  | cons c cs =>
    by_cases same : c = mark
    · simp [escapeMarkup_cons, same, untouched.entity]
    · obtain ⟨first, rest, written⟩ := List.exists_cons_of_ne_nil (entity_ne_nil c)
      have other : first ≠ mark := by
        rintro rfl
        exact untouched.notMem same (written ▸ List.mem_cons_self)
      simp [escapeMarkup_cons, written, same, other]

theorem cutAtFirst?_escapeMarkup (untouched : Untouched mark) (cs : List Char) :
    cutAtFirst? mark (escapeMarkup cs) =
      (cutAtFirst? mark cs).map (Prod.map escapeMarkup escapeMarkup) := by
  induction cs with
  | nil => rfl
  | cons c cs ih =>
    rw [escapeMarkup_cons, cutAtFirst?]
    split
    · rename_i same
      rw [same, untouched.entity, List.singleton_append, cutAtFirst?, if_pos rfl]
      rfl
    · rename_i other
      rw [cutAtFirst?_append_of_notMem (untouched.notMem other), ih, Option.map_map, Option.map_map]
      congr 1

theorem cutAtLast?_escapeMarkup (untouched : Untouched mark) (cs : List Char) :
    cutAtLast? mark (escapeMarkup cs) =
      (cutAtLast? mark cs).map (Prod.map escapeMarkup escapeMarkup) := by
  induction cs with
  | nil => rfl
  | cons c cs ih =>
    rw [escapeMarkup_cons]
    by_cases same : c = mark
    · rw [same, untouched.entity, List.singleton_append, cutAtLast?, ih, cutAtLast?]
      cases cutAtLast? mark cs with
      | none => simp [escapeMarkup]
      | some parts => simp [escapeMarkup_cons, untouched.entity]
    · rw [cutAtLast?_append_of_notMem (untouched.notMem same), ih, cutAtLast?]
      cases cutAtLast? mark cs with
      | none => simp [same]
      | some parts => rfl

end Marks

section Tags

theorem after?_escapeMarkup {word : String} (plain : isPlain word.toList = true) (cs : List Char) :
    after? word (escapeMarkup cs) = (after? word cs).map escapeMarkup := by
  rw [isPlain_iff] at plain
  rw [after?, after?]
  generalize word.toList = letters at plain
  induction letters generalizing cs with
  | nil => rfl
  | cons letter letters ih =>
    rw [List.forall_mem_cons] at plain
    cases cs with
    | nil => rfl
    | cons c cs =>
      rw [escapeMarkup_cons]
      by_cases member : c ∈ markup
      · obtain ⟨name, written⟩ := entity_of_mem member
        have notHere : letter ≠ c := fun same => plain.1 (same ▸ member)
        have notEntity : letter ≠ '&' := fun same => plain.1 (same ▸ List.mem_cons_self)
        simp [written, List.isPrefixOf?, notHere, notEntity]
      · rw [entity_of_notMem member, List.singleton_append, List.isPrefixOf?, List.isPrefixOf?]
        split
        · exact ih cs plain.2
        · rfl

/-- What is recognised after `@param`. -/
def afterParam? {α : Type} (recognise? : List Char → Option α) (cs : List Char) : Option α :=
  (after? "@param" cs).bind recognise?

variable {α : Type} (recognise? : List Char → Option α)

theorem afterParam?_of_ne {c : Char} (other : c ≠ '@') (cs : List Char) :
    afterParam? recognise? (c :: cs) = none := by
  simp [afterParam?, after?, List.isPrefixOf?, Ne.symm other]

theorem leftmost?_afterParam?_append {lead : List Char} (free : '@' ∉ lead) (cs : List Char) :
    leftmost? (afterParam? recognise?) (lead ++ cs) = leftmost? (afterParam? recognise?) cs := by
  induction lead with
  | nil => rfl
  | cons c lead ih =>
    rw [List.mem_cons, not_or] at free
    rw [List.cons_append, leftmost?, afterParam?_of_ne _ (Ne.symm free.1), ih free.2]

/-- Tags stand in an escaped text where they stand in the text. -/
theorem leftmost?_escapeMarkup (cs : List Char) :
    leftmost? (afterParam? recognise?) (escapeMarkup cs) =
      leftmost? (afterParam? fun rest => recognise? (escapeMarkup rest)) cs := by
  have untouched : Untouched '@' := by decide
  have here : ∀ cs, afterParam? recognise? (escapeMarkup cs) =
      afterParam? (fun rest => recognise? (escapeMarkup rest)) cs := by
    intro cs
    rw [afterParam?, after?_escapeMarkup (by decide), Option.bind_map]
    rfl
  induction cs with
  | nil => exact here []
  | cons c cs ih =>
    by_cases same : c = '@'
    · have start := here (c :: cs)
      rw [same, escapeMarkup_cons, untouched.entity, List.singleton_append] at start ⊢
      rw [leftmost?, leftmost?, start, ih]
    · rw [escapeMarkup_cons, leftmost?_afterParam?_append _ (untouched.notMem same), ih, leftmost?,
        afterParam?_of_ne _ same]

end Tags

section Lines

/-- The text with its markup escaped. -/
def escapeText (s : String) : String :=
  String.ofList (escapeMarkup s.toList)

/-- The lines that a comment gives with its markup escaped are those that it gives without, escaped. -/
theorem linesOf_escaped (comment : Option Comment) :
    linesOf true comment = (linesOf false comment).map escapeText := by
  have each : ∀ text, blockLine (escapeMarkup text) = escapeText (blockLine text) := by
    intro text
    have written : (blockLine text).toList = trimEnd (" * ".toList ++ text) := String.toList_ofList
    rw [escapeText, written, trimEnd, ← dropEndWhile_escapeMarkup respected_isWhite, escapeMarkup_append,
      escapeMarkup_of_isPlain (show isPlain " * ".toList = true by decide)]
    rfl
  cases comment with
  | none => rfl
  | some c =>
    rw [linesOf, linesOf, commentLines, commentLines, List.map_map]
    exact List.map_congr_left fun line _ => each (dropClosers line)

theorem summary_escaped (comment : Option Comment) :
    summary true comment = escapeText (summary false comment) := by
  cases comment with
  | none => rfl
  | some c =>
    rw [summary, summary, escapeText, String.toList_ofList]
    rfl

/-- Escaping loses nothing: one pass over the escaped text gives the text back. Of markup only ampersands
are left in it, and each of them starts an entity. The block and the summary of a comment with its markup
escaped are those without, the block line by line escaped. -/
theorem escaping_lossless_pointwise (text : String) (comment : Option Comment) :
    unescape (escapeText text).toList = text.toList ∧
    (∀ mark ∈ ['<', '>', '"', '\''], mark ∉ (escapeText text).toList) ∧
    (∀ rest, '&' :: rest <:+ (escapeText text).toList →
      ∃ word ∈ ["&amp;", "&lt;", "&gt;", "&quot;", "&apos;"], word.toList <+: '&' :: rest) ∧
    openBlock true comment = (openBlock false comment).map escapeText ∧
    summary true comment = escapeText (summary false comment) := by
  rw [escapeText, String.toList_ofList]
  refine ⟨unescape_escapeMarkup _, ?_, ?_, ?_, summary_escaped comment⟩
  · exact fun mark escaped => notMem_escapeMarkup escaped _
  · exact fun rest ends => exists_entity_of_ampersand ends
  · rw [openBlock, openBlock, List.map_cons, linesOf_escaped]
    rfl

end Lines

end BrightDoc.Doc
