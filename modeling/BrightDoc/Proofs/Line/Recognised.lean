import BrightDoc.Proofs.Text.Columns
import Mathlib.Data.List.Pairwise
import Mathlib.Data.List.TakeWhile

/-! # What recognised code is made of

A recogniser gives pieces of the code it is applied to: names over the letters of names, tokens over
those and dots, and initializers as they are written. Each works its way to the end of the code, so
what is left at any point is an end of the code. -/

namespace BrightDoc.Text

theorem skipSpace_suffix (cs : List Char) : skipSpace cs <:+ cs :=
  List.dropWhile_suffix isSpace

theorem someSpace?_suffix {cs rest : List Char} (found : someSpace? cs = some rest) :
    rest <:+ cs := by
  cases cs with
  | nil => cases found
  | cons c cs =>
    rw [someSpace?] at found
    split at found
    · cases found
      exact (skipSpace_suffix cs).trans (List.suffix_cons c cs)
    · cases found

theorem spelling?_suffix {word cs found rest : List Char}
    (spelled : spelling? word cs = some (found, rest)) : rest <:+ cs := by
  rw [spelling?_append spelled]
  exact List.suffix_append found rest

theorem afterKeyword?_suffix {word : String} {cs rest : List Char}
    (found : afterKeyword? word cs = some rest) : rest <:+ cs := by
  obtain ⟨⟨spelled, rest'⟩, spelling, same⟩ := Option.map_eq_some_iff.mp found
  cases same
  exact spelling?_suffix spelling

theorem firstSpelling?_suffix {words : List String} {cs found rest : List Char}
    (spelled : firstSpelling? words cs = some (found, rest)) : rest <:+ cs := by
  obtain ⟨word, -, spelling⟩ := List.exists_of_findSome?_eq_some spelled
  exact spelling?_suffix spelling

theorem after?_suffix {word : String} {cs rest : List Char} (found : after? word cs = some rest) :
    rest <:+ cs := by
  rw [after?, List.isPrefixOf?_eq_some_iff_append_eq] at found
  rw [← found]
  exact List.suffix_append _ rest

end BrightDoc.Text

namespace BrightDoc.Line

open BrightDoc.Text

/-- Characters of a name after its first letter. -/
def isNameTail (c : Char) : Bool :=
  isCaselessLetter c || c.isDigit

/-- A name is a piece of its text, starts with a letter and goes on with letters and digits. -/
theorem nameOver?_eq_some {letter : Char → Bool} {cs name rest : List Char}
    (found : nameOver? letter cs = some (name, rest)) :
    cs = name ++ rest ∧ (∃ c tail, name = c :: tail ∧ letter c = true) ∧
      ∀ c ∈ name, letter c = true ∨ c.isDigit = true := by
  cases cs with
  | nil => cases found
  | cons c cs =>
    rw [nameOver?] at found
    split at found
    · rename_i isLetter
      cases found
      refine ⟨by simp, ⟨c, _, rfl, isLetter⟩, ?_⟩
      intro d member
      rcases List.mem_cons.mp member with rfl | member
      · exact Or.inl isLetter
      · simpa using List.mem_takeWhile_imp member
    · cases found

/-- A token is a piece of its text, starts with a letter and goes on with letters, digits and
dots. -/
theorem token?_eq_some {cs token rest : List Char} (found : token? cs = some (token, rest)) :
    cs = token ++ rest ∧ (∃ c tail, token = c :: tail ∧ isCaselessLetter c = true) ∧
      ∀ c ∈ token, isTokenTail c = true := by
  cases cs with
  | nil => cases found
  | cons c cs =>
    rw [token?] at found
    split at found
    · rename_i isLetter
      cases found
      refine ⟨by simp, ⟨c, _, rfl, isLetter⟩, ?_⟩
      intro d member
      rcases List.mem_cons.mp member with rfl | member
      · simp [isTokenTail, isLetter]
      · exact List.mem_takeWhile_imp member
    · cases found

theorem isCaselessLetter_range {c : Char} (letter : isCaselessLetter c = true) :
    (65 ≤ c.toNat ∧ c.toNat ≤ 90) ∨ (97 ≤ c.toNat ∧ c.toNat ≤ 122) ∨ c.toNat = 95 ∨
      c.toNat = 0x17f ∨ c.toNat = 0x212a := by
  simp only [isCaselessLetter, isLetter, Bool.or_eq_true, beq_iff_eq] at letter
  rcases letter with (((alpha | rfl) | rfl) | rfl)
  · rcases Bool.or_eq_true_iff.mp alpha with upper | lower
    · exact Or.inl (of_decide_eq_true upper)
    · obtain ⟨low, high⟩ := Bool.and_eq_true_iff.mp lower
      exact Or.inr (Or.inl ⟨of_decide_eq_true low, of_decide_eq_true high⟩)
  · decide
  · decide
  · decide

/-- A letter of a name is no white space. -/
theorem isWhite_of_isCaselessLetter {c : Char} (letter : isCaselessLetter c = true) :
    isWhite c = false := by
  have range := isCaselessLetter_range letter
  rw [isWhite, Bool.eq_false_iff]
  intro white
  obtain ⟨r, member, low, high⟩ := inRanges_iff.mp white
  simp only [whiteRanges, List.mem_cons, List.not_mem_nil, or_false] at member
  rcases member with rfl | rfl | rfl | rfl | rfl | rfl | rfl | rfl | rfl | rfl <;>
    simp only at low high <;> omega

/-- Something is written in the text. -/
def Inked (cs : List Char) : Prop :=
  ∃ c ∈ cs, isWhite c = false

theorem Inked.of_suffix {part cs : List Char} (inked : Inked part) (isEnd : part <:+ cs) :
    Inked cs := by
  obtain ⟨c, member, notWhite⟩ := inked
  exact ⟨c, isEnd.subset member, notWhite⟩

/-- Where a name is found, something is written. -/
theorem inked_of_nameOver? {letter : Char → Bool} {cs : List Char}
    (letters : ∀ c, letter c = true → isCaselessLetter c = true)
    (found : (nameOver? letter cs).isSome = true) : Inked cs := by
  obtain ⟨⟨name, rest⟩, found⟩ := Option.isSome_iff_exists.mp found
  obtain ⟨rfl, ⟨c, tail, rfl, isLetter⟩, -⟩ := nameOver?_eq_some found
  exact ⟨c, by simp, isWhite_of_isCaselessLetter (letters c isLetter)⟩

theorem inked_of_name? {cs : List Char} {found : List Char × List Char}
    (named : name? cs = some found) : Inked cs :=
  inked_of_nameOver? (fun _ isLetter => isLetter) (by rw [show nameOver? _ cs = _ from named]; rfl)

/-- The text holds neither asterisk, slash nor line feed, as names and tokens do. -/
def Plain (cs : List Char) : Prop :=
  ∀ c ∈ cs, c ≠ '*' ∧ c ≠ '/' ∧ c ≠ '\n'

instance (cs : List Char) : Decidable (Plain cs) :=
  List.decidableBAll _ cs

theorem plain_of_all {p : Char → Bool} (star : p '*' = false) (slash : p '/' = false)
    (feed : p '\n' = false) {cs : List Char} (all : ∀ c ∈ cs, p c = true) : Plain cs := by
  intro c member
  have holds := all c member
  refine ⟨?_, ?_, ?_⟩ <;> rintro rfl <;> simp_all

theorem Plain.subset {part cs : List Char} (plain : Plain cs) (sub : part ⊆ cs) : Plain part :=
  fun c member => plain c (sub member)

theorem plain_of_token? {cs token rest : List Char} (found : token? cs = some (token, rest)) :
    Plain token :=
  plain_of_all (by decide) (by decide) (by decide) (token?_eq_some found).2.2

theorem plain_of_name? {cs name rest : List Char} (found : name? cs = some (name, rest)) :
    Plain name ∧ name ≠ [] := by
  obtain ⟨-, ⟨c, tail, rfl, -⟩, all⟩ := nameOver?_eq_some found
  refine ⟨plain_of_all (p := isNameTail) (by decide) (by decide) (by decide) ?_, by simp⟩
  intro d member
  simpa [isNameTail] using all d member

theorem withDesignator_suffix (name rest : List Char) : (withDesignator (name, rest)).2 <:+ rest := by
  cases rest with
  | nil => exact List.suffix_refl _
  | cons c cs =>
    rw [withDesignator]
    split
    · exact List.suffix_cons c cs
    · exact List.suffix_refl _

/-- A designator does not change of what a name is made. -/
theorem plain_withDesignator {name : List Char} (plain : Plain name) (rest : List Char) :
    Plain (withDesignator (name, rest)).1 := by
  cases rest with
  | nil => exact plain
  | cons c cs =>
    rw [withDesignator]
    split
    · rename_i designator
      intro d member
      rcases List.mem_append.mp member with member | member
      · exact plain d member
      · rw [List.mem_singleton.mp member]
        have all : ∀ e ∈ [c], isDesignator e = true := by simpa using designator
        exact plain_of_all (by decide) (by decide) (by decide) all c (by simp)
    · exact plain

theorem withDesignator_ne_nil {name : List Char} (nonempty : name ≠ []) (rest : List Char) :
    (withDesignator (name, rest)).1 ≠ [] := by
  cases rest with
  | nil => exact nonempty
  | cons c cs =>
    rw [withDesignator]
    split
    · simp
    · exact nonempty

theorem done?_eq_some {α : Type} {value found : α} {rest : List Char}
    (done : done? value rest = some found) : found = value := by
  rw [done?] at done
  split at done
  · exact (Option.some.inj done).symm
  · cases done

theorem asToken?_eq_some {cs token rest : List Char} (found : asToken? cs = some (token, rest)) :
    Plain token ∧ rest <:+ cs := by
  simp only [asToken?, Option.bind_eq_bind, Option.bind_eq_some_iff] at found
  obtain ⟨afterAs, keyword, start, spaced, token⟩ := found
  refine ⟨plain_of_token? token, ?_⟩
  have tail : rest <:+ start := by
    rw [(token?_eq_some token).1]
    exact List.suffix_append _ rest
  exact tail.trans ((someSpace?_suffix spaced).trans (afterKeyword?_suffix keyword))

theorem typeClause?_eq_some {cs : List Char} {type : Option (List Char)}
    (found : typeClause? cs = some type) : ∀ token ∈ type, Plain token := by
  rw [typeClause?] at found
  split at found
  · cases found
    simp
  · simp only [Option.bind_eq_bind, Option.bind_eq_some_iff] at found
    obtain ⟨⟨token, rest⟩, asToken, done⟩ := found
    rw [done?_eq_some done]
    intro token' same
    cases same
    exact (asToken?_eq_some asToken).1

/-- An initializer is a piece of its text. -/
theorem initializer?_subset {cs value : List Char} (found : initializer? cs = some value) :
    value ⊆ cs := by
  rw [initializer?] at found
  split at found
  · obtain ⟨c, last, rfl⟩ := Option.map_eq_some_iff.mp found
    simpa using List.mem_of_getLast? last
  · cases found
    exact List.Subset.trans (dropEndWhile_isPrefix isSpace _).subset (skipSpace_suffix cs).subset

theorem optionalInitializer?_subset {cs : List Char} {value : Option (List Char)}
    (found : optionalInitializer? cs = some value) : ∀ text ∈ value, text ⊆ cs := by
  rw [optionalInitializer?] at found
  split at found
  · cases found
    simp
  · rename_i rest start
    obtain ⟨text, initializer, rfl⟩ := Option.map_eq_some_iff.mp found
    intro text' same
    cases same
    have sub : rest ⊆ skipSpace cs := by
      rw [start]
      exact List.subset_cons_self _ rest
    exact List.Subset.trans (initializer?_subset initializer)
      (List.Subset.trans sub (skipSpace_suffix cs).subset)
  · cases found

theorem afterWord?_suffix {word : String} {code rest : List Char}
    (found : afterWord? word code = some rest) : rest <:+ code := by
  simp only [afterWord?, Option.bind_eq_bind, Option.bind_eq_some_iff] at found
  obtain ⟨afterKeyword, keyword, spaced⟩ := found
  exact (someSpace?_suffix spaced).trans
    ((afterKeyword?_suffix keyword).trans (skipSpace_suffix code))

theorem parentClause?_eq_some {cs : List Char} {parent : Option (List Char)}
    (found : parentClause? cs = some parent) : ∀ token ∈ parent, Plain token := by
  rw [parentClause?] at found
  split at found
  · cases found
    simp
  · simp only [Option.bind_eq_bind, Option.bind_eq_some_iff] at found
    obtain ⟨afterName, -, afterWord, -, start, -, ⟨token, rest⟩, named, done⟩ := found
    rw [done?_eq_some done]
    intro token' same
    cases same
    exact plain_of_token? named

/-- The header of a class or interface. -/
theorem inheritingHeader?_eq_some {word : String} {code name : List Char}
    {parent : Option (List Char)} (found : inheritingHeader? word code = some (name, parent)) :
    Inked code ∧ (Plain name ∧ name ≠ []) ∧ ∀ token ∈ parent, Plain token := by
  simp only [inheritingHeader?, Option.bind_eq_bind, Option.bind_eq_some_iff,
    Option.pure_def, Option.some.injEq] at found
  obtain ⟨start, keyword, ⟨name', rest⟩, named, parent', clause, same⟩ := found
  cases same
  exact ⟨(inked_of_name? named).of_suffix (afterWord?_suffix keyword), plain_of_name? named,
    parentClause?_eq_some clause⟩

/-- The header of an enum. -/
theorem enumHeader?_eq_some {code name : List Char} (found : enumHeader? code = some name) :
    Inked code ∧ Plain name ∧ name ≠ [] := by
  simp only [enumHeader?, Option.bind_eq_bind, Option.bind_eq_some_iff] at found
  obtain ⟨start, keyword, ⟨name', rest⟩, named, done⟩ := found
  rw [done?_eq_some done]
  exact ⟨(inked_of_name? named).of_suffix (afterWord?_suffix keyword), plain_of_name? named⟩

/-- The header of a namespace. -/
theorem namespaceHeader?_eq_some {code name : List Char}
    (found : namespaceHeader? code = some name) : Inked code ∧ Plain name ∧ name ≠ [] := by
  simp only [namespaceHeader?, Option.bind_eq_bind, Option.bind_eq_some_iff] at found
  obtain ⟨start, keyword, ⟨token, rest⟩, named, checked⟩ := found
  have plain := plain_of_token? named
  obtain ⟨split, ⟨c, tail, rfl, isLetter⟩, -⟩ := token?_eq_some named
  have inked : Inked start := ⟨c, by simp [split], isWhite_of_isCaselessLetter isLetter⟩
  split at checked
  · rw [done?_eq_some checked]
    exact ⟨inked.of_suffix (afterWord?_suffix keyword), plain, by simp⟩
  · cases checked

/-- A constant. -/
theorem constant?_eq_some {code name value : List Char}
    (found : constant? code = some (name, value)) :
    Inked code ∧ (Plain name ∧ name ≠ []) ∧ value ⊆ code := by
  simp only [constant?, Option.bind_eq_bind, Option.bind_eq_some_iff, Option.pure_def,
    Option.some.injEq] at found
  obtain ⟨start, keyword, ⟨name', rest⟩, named, afterSign, sign, value', initializer, same⟩ := found
  cases same
  have tail : rest <:+ start := by
    rw [(nameOver?_eq_some named).1]
    exact List.suffix_append _ rest
  have inside : afterSign <:+ code := (after?_suffix sign).trans ((skipSpace_suffix rest).trans
    (tail.trans (afterWord?_suffix keyword)))
  exact ⟨(inked_of_name? named).of_suffix (afterWord?_suffix keyword), plain_of_name? named,
    List.Subset.trans (initializer?_subset initializer) inside.subset⟩

/-- A member of an enum. -/
theorem enumMember?_eq_some {code name : List Char} {value : Option (List Char)}
    (found : enumMember? code = some (name, value)) :
    Inked code ∧ (Plain name ∧ name ≠ []) ∧ ∀ text ∈ value, text ⊆ code := by
  simp only [enumMember?, Option.bind_eq_bind, Option.bind_eq_some_iff, Option.pure_def,
    Option.some.injEq] at found
  obtain ⟨⟨name', rest⟩, named, value', initializer, same⟩ := found
  cases same
  have letters : ∀ c, isLetter c = true → isCaselessLetter c = true := by
    intro c letter
    simp [isCaselessLetter, letter]
  obtain ⟨split, ⟨c, tail, rfl, -⟩, all⟩ := nameOver?_eq_some named
  have inside : rest <:+ code := by
    have tail : rest <:+ skipSpace code := by
      rw [split]
      exact List.suffix_append _ rest
    exact tail.trans (skipSpace_suffix code)
  refine ⟨?_, ⟨plain_of_all (p := isNameTail) (by decide) (by decide) (by decide) ?_, by simp⟩, ?_⟩
  · apply Inked.of_suffix _ (skipSpace_suffix code)
    exact inked_of_nameOver? letters (by rw [show nameOver? isLetter _ = _ from named]; rfl)
  · intro d member
    rcases all d member with letter | digit
    · simp [isNameTail, letters d letter]
    · simp [isNameTail, digit]
  · intro text member
    exact List.Subset.trans (optionalInitializer?_subset initializer text member) inside.subset

theorem interfaceFieldFromName?_eq_some {cs name : List Char} {type : Option (List Char)}
    (found : interfaceFieldFromName? cs = some (name, type)) :
    Inked cs ∧ (Plain name ∧ name ≠ []) ∧ ∀ token ∈ type, Plain token := by
  simp only [interfaceFieldFromName?, Option.bind_eq_bind, Option.bind_eq_some_iff,
    Option.pure_def] at found
  obtain ⟨⟨name', rest⟩, named, found⟩ := found
  dsimp only at found
  split at found
  · cases found
    exact ⟨inked_of_name? named, plain_of_name? named, by simp⟩
  · simp only [Option.bind_eq_some_iff] at found
    obtain ⟨start, spaced, ⟨token, after⟩, asToken, done⟩ := found
    cases done?_eq_some done
    refine ⟨inked_of_name? named, plain_of_name? named, ?_⟩
    intro token' same
    cases same
    exact (asToken?_eq_some asToken).1

/-- A field of an interface. -/
theorem interfaceField?_eq_some {code name : List Char} {type : Option (List Char)}
    (found : interfaceField? code = some (name, type)) :
    Inked code ∧ (Plain name ∧ name ≠ []) ∧ ∀ token ∈ type, Plain token := by
  rw [interfaceField?, Option.or_eq_some_iff] at found
  rcases found with found | ⟨-, found⟩
  · simp only [Option.bind_eq_some_iff] at found
    obtain ⟨start, ⟨afterWord, keyword, spaced⟩, found⟩ := found
    obtain ⟨inked, parts⟩ := interfaceFieldFromName?_eq_some found
    exact ⟨inked.of_suffix ((someSpace?_suffix spaced).trans
      ((afterKeyword?_suffix keyword).trans (skipSpace_suffix code))), parts⟩
  · obtain ⟨inked, parts⟩ := interfaceFieldFromName?_eq_some found
    exact ⟨inked.of_suffix (skipSpace_suffix code), parts⟩

theorem access?_suffix {cs rest : List Char} {access : Access}
    (found : access? cs = some (access, rest)) : rest <:+ cs := by
  obtain ⟨⟨word, access'⟩, -, found⟩ := List.exists_of_findSome?_eq_some found
  simp only [Option.bind_eq_bind, Option.bind_eq_some_iff, Option.pure_def, Option.some.injEq,
    Prod.mk.injEq] at found
  obtain ⟨afterWord, keyword, rest', spaced, -, rfl⟩ := found
  exact (someSpace?_suffix spaced).trans (afterKeyword?_suffix keyword)

theorem optionalAccess_suffix (cs : List Char) : (optionalAccess cs).2 <:+ cs := by
  rw [optionalAccess]
  split
  · rename_i found
    exact access?_suffix found
  · exact List.suffix_refl cs

theorem optionalOverride_suffix (cs : List Char) : (optionalOverride cs).2 <:+ cs := by
  rw [optionalOverride]
  split
  · rename_i found
    obtain ⟨afterWord, keyword, spaced⟩ := Option.bind_eq_some_iff.mp found
    exact (someSpace?_suffix spaced).trans (afterKeyword?_suffix keyword)
  · exact List.suffix_refl cs

theorem functionLead?_suffix {code rest : List Char} {lead : FunctionLead}
    (found : functionLead? code = some (lead, rest)) : rest <:+ code := by
  simp only [functionLead?, Option.bind_eq_bind, Option.bind_eq_some_iff, Option.pure_def,
    Option.some.injEq, Prod.mk.injEq] at found
  obtain ⟨⟨word, afterWord⟩, keyword, rest', spaced, -, rfl⟩ := found
  exact (someSpace?_suffix spaced).trans ((firstSpelling?_suffix keyword).trans
    ((optionalOverride_suffix _).trans ((optionalAccess_suffix _).trans (skipSpace_suffix code))))

/-- The header of a function. -/
theorem functionHeader?_eq_some {code : List Char} {header : FunctionHeader}
    (found : functionHeader? code = some header) :
    Inked code ∧ (Plain header.name ∧ header.name ≠ []) ∧ header.params ⊆ code ∧
      ∀ token ∈ header.returns, Plain token := by
  simp only [functionHeader?, Option.bind_eq_bind, Option.bind_eq_some_iff, Option.pure_def,
    Option.some.injEq] at found
  obtain ⟨⟨lead, start⟩, leading, ⟨name, afterName⟩, designated, list, opened, ⟨params, rest⟩, cut,
    returns, clause, rfl⟩ := found
  dsimp only at designated opened clause
  obtain ⟨⟨bare, tail⟩, named, same⟩ := Option.map_eq_some_iff.mp designated
  obtain ⟨plain, nonempty⟩ := plain_of_name? named
  have full := plain_withDesignator plain tail
  have isEnd := withDesignator_suffix bare tail
  have longer := withDesignator_ne_nil nonempty tail
  rw [same] at full isEnd longer
  have inside : list <:+ code := by
    have afterBare : tail <:+ start := by
      rw [(nameOver?_eq_some named).1]
      exact List.suffix_append _ tail
    exact (after?_suffix opened).trans ((skipSpace_suffix afterName).trans
      (isEnd.trans (afterBare.trans (functionLead?_suffix leading))))
  refine ⟨(inked_of_name? named).of_suffix (functionLead?_suffix leading), ⟨full, longer⟩, ?_,
    typeClause?_eq_some clause⟩
  intro c member
  apply inside.subset
  rw [(cutAtLast?_eq_some cut).1]
  exact List.mem_append_left _ member

theorem defaultAndType?_eq_some {held cs text : List Char} {type : Option (List Char)}
    (found : defaultAndType? held cs = some (text, type)) :
    text ⊆ held ++ cs ∧ ∀ token ∈ type, Plain token := by
  induction cs generalizing held with
  | nil => cases found
  | cons c cs ih =>
    rw [defaultAndType?] at found
    split at found
    · rename_i token clause
      cases found
      refine ⟨?_, typeClause?_eq_some clause⟩
      intro d member
      simp only [List.mem_reverse, List.mem_cons] at member
      simp only [List.mem_append, List.mem_cons]
      rcases member with rfl | member
      · exact Or.inr (Or.inl rfl)
      · exact Or.inl member
    · obtain ⟨sub, plain⟩ := ih found
      refine ⟨?_, plain⟩
      intro d member
      have inside := sub member
      simp only [List.cons_append, List.mem_cons, List.mem_append] at inside
      simp only [List.mem_append, List.mem_cons]
      rcases inside with rfl | inside | inside
      · exact Or.inr (Or.inl rfl)
      · exact Or.inl inside
      · exact Or.inr (Or.inr inside)

theorem paramRest?_eq_some {cs : List Char} {default type : Option (List Char)}
    (found : paramRest? cs = some (default, type)) :
    (∀ text ∈ default, text ⊆ cs) ∧ ∀ token ∈ type, Plain token := by
  rw [paramRest?] at found
  split at found
  · rename_i rest start
    have inside : rest ⊆ cs := by
      intro c member
      apply (skipSpace_suffix cs).subset
      rw [start]
      exact List.mem_cons_of_mem _ member
    split at found
    · obtain ⟨c, last, same⟩ := Option.map_eq_some_iff.mp found
      cases same
      refine ⟨?_, by simp⟩
      intro text same
      cases same
      simpa using inside (List.mem_of_getLast? last)
    · obtain ⟨⟨text, token⟩, cut, same⟩ := Option.map_eq_some_iff.mp found
      cases same
      obtain ⟨sub, plain⟩ := defaultAndType?_eq_some cut
      refine ⟨?_, plain⟩
      intro text' same
      cases same
      rw [List.nil_append] at sub
      exact List.Subset.trans sub (List.Subset.trans (skipSpace_suffix rest).subset inside)
  · obtain ⟨token, clause, same⟩ := Option.map_eq_some_iff.mp found
    cases same
    exact ⟨by simp, typeClause?_eq_some clause⟩

/-- A name cut before its final `as` is a part of the name. -/
theorem beforeAs?_eq_some {name short : List Char} (found : beforeAs? name = some short) :
    short ⊆ name ∧ short ≠ [] := by
  simp only [beforeAs?] at found
  split at found
  · rename_i spelled
    cases found
    simp only [Bool.and_eq_true, Bool.not_eq_true', List.isEmpty_eq_false_iff] at spelled
    exact ⟨List.take_subset _ _, spelled.2⟩
  · cases found

/-- A parameter. -/
theorem paramParts?_eq_some {text : List Char} {parts : ParamParts}
    (found : paramParts? text = some parts) :
    (Plain parts.name ∧ parts.name ≠ []) ∧ (∀ value ∈ parts.default, value ⊆ text) ∧
      ∀ token ∈ parts.typeToken, Plain token := by
  simp only [paramParts?, Option.bind_eq_bind, Option.bind_eq_some_iff] at found
  obtain ⟨⟨name, rest⟩, named, found⟩ := found
  obtain ⟨plain, nonempty⟩ := plain_of_name? named
  have afterName : rest <:+ text := by
    have isEnd : rest <:+ skipSpace text := by
      rw [(nameOver?_eq_some named).1]
      exact List.suffix_append _ rest
    exact isEnd.trans (skipSpace_suffix text)
  dsimp only at found
  split at found
  · rename_i default token restFound
    cases found
    have isEnd := withDesignator_suffix name rest
    obtain ⟨sub, tokenPlain⟩ := paramRest?_eq_some restFound
    refine ⟨⟨plain_withDesignator plain rest, withDesignator_ne_nil nonempty rest⟩, ?_, tokenPlain⟩
    intro value member
    exact List.Subset.trans (sub value member) (isEnd.trans afterName).subset
  · simp only [Option.bind_eq_some_iff] at found
    obtain ⟨short, cut, start, spaced, ⟨token, left⟩, tokened, done⟩ := found
    obtain ⟨sub, longer⟩ := beforeAs?_eq_some cut
    rw [done?_eq_some done]
    refine ⟨⟨plain.subset sub, longer⟩, by simp, ?_⟩
    intro token' same
    cases same
    exact plain_of_token? tokened

theorem fieldRest?_eq_some {cs : List Char} {type value : Option (List Char)}
    (found : fieldRest? cs = some (type, value)) :
    (∀ token ∈ type, Plain token) ∧ ∀ text ∈ value, text ⊆ cs := by
  rw [fieldRest?] at found
  split at found
  · rename_i token rest asToken
    obtain ⟨value', initializer, same⟩ := Option.map_eq_some_iff.mp found
    cases same
    obtain ⟨plain, isEnd⟩ := asToken?_eq_some asToken
    refine ⟨?_, ?_⟩
    · intro token' same
      cases same
      exact plain
    · intro text member
      exact List.Subset.trans (optionalInitializer?_subset initializer text member)
        (isEnd.trans (skipSpace_suffix cs)).subset
  · obtain ⟨value', initializer, same⟩ := Option.map_eq_some_iff.mp found
    cases same
    exact ⟨by simp, optionalInitializer?_subset initializer⟩

theorem fieldFromName?_eq_some {access : Option Access} {cs : List Char} {parts : FieldParts}
    (found : fieldFromName? access cs = some parts) :
    Inked cs ∧ (Plain parts.name ∧ parts.name ≠ []) ∧ ∀ token ∈ parts.typeToken, Plain token := by
  simp only [fieldFromName?, Option.bind_eq_bind, Option.bind_eq_some_iff, Option.pure_def] at found
  obtain ⟨⟨name, rest⟩, named, found⟩ := found
  obtain ⟨plain, nonempty⟩ := plain_of_name? named
  refine ⟨inked_of_name? named, ?_⟩
  dsimp only at found
  split at found
  · rename_i type value restFound
    cases found
    exact ⟨⟨plain_withDesignator plain rest, withDesignator_ne_nil nonempty rest⟩,
      (fieldRest?_eq_some restFound).1⟩
  · simp only [Option.bind_eq_some_iff, Option.some.injEq] at found
    obtain ⟨short, cut, start, spaced, ⟨token, left⟩, tokened, value, initializer, rfl⟩ := found
    obtain ⟨sub, longer⟩ := beforeAs?_eq_some cut
    refine ⟨⟨plain.subset sub, longer⟩, ?_⟩
    intro token' same
    cases same
    exact plain_of_token? tokened

/-- A field of a class. -/
theorem field?_eq_some {code : List Char} {parts : FieldParts} (found : field? code = some parts) :
    Inked code ∧ (Plain parts.name ∧ parts.name ≠ []) ∧ ∀ token ∈ parts.typeToken, Plain token := by
  rw [field?, Option.or_eq_some_iff] at found
  rcases found with found | ⟨-, found⟩
  · obtain ⟨⟨access, rest⟩, accessed, found⟩ := Option.bind_eq_some_iff.mp found
    obtain ⟨inked, parts⟩ := fieldFromName?_eq_some found
    exact ⟨inked.of_suffix ((access?_suffix accessed).trans (skipSpace_suffix code)), parts⟩
  · obtain ⟨inked, parts⟩ := fieldFromName?_eq_some found
    exact ⟨inked.of_suffix (skipSpace_suffix code), parts⟩

/-- An annotation is written on its line. -/
theorem inked_of_annotationName? {line name : List Char}
    (found : annotationName? line = some name) : Inked line := by
  rw [annotationName?] at found
  split at found
  · rename_i cs start
    have inked : Inked (skipSpace line) := ⟨'@', by simp [start], by decide⟩
    exact inked.of_suffix (skipSpace_suffix line)
  · cases found

/-- A character that spells a letter is one. -/
theorem isCaselessLetter_of_foldChar {c : Char} (lower : (foldChar c).isLower = true) :
    isCaselessLetter c = true := by
  rw [foldChar] at lower
  split at lower
  · rename_i same
    rw [same]
    decide
  split at lower
  · rename_i same
    rw [same]
    decide
  by_cases upper : c.isUpper = true
  · have alpha : c.isAlpha = true := Bool.or_eq_true_iff.mpr (Or.inl upper)
    simp [isCaselessLetter, isLetter, alpha]
  · have same : c.toLower = c := dif_neg fun range => upper (decide_eq_true range)
    rw [same] at lower
    have alpha : c.isAlpha = true := Bool.or_eq_true_iff.mpr (Or.inr lower)
    simp [isCaselessLetter, isLetter, alpha]

/-- The word `rem` is written in letters. -/
theorem inked_of_rem {cs rest : List Char} (found : afterKeyword? "rem" cs = some rest) :
    Inked cs := by
  obtain ⟨found, spelling, -⟩ := Option.map_eq_some_iff.mp found
  cases cs with
  | nil => cases spelling
  | cons c cs =>
    refine ⟨c, List.mem_cons_self, isWhite_of_isCaselessLetter ?_⟩
    have folded : foldChar c = 'r' := by
      by_contra other
      rw [show "rem".toList = ['r', 'e', 'm'] from rfl, spelling?, if_neg other] at spelling
      cases spelling
    exact isCaselessLetter_of_foldChar (by rw [folded]; decide)

/-- A comment is written on its line. -/
theorem inked_of_isComment {line : List Char} (comment : isComment line = true) : Inked line := by
  apply Inked.of_suffix _ (skipSpace_suffix line)
  rw [isComment] at comment
  split at comment
  · rename_i cs start
    exact ⟨'\'', by simp [start], by decide⟩
  · split at comment
    · rename_i keyword
      exact inked_of_rem keyword
    · rename_i keyword
      exact inked_of_rem keyword
    · cases comment

end BrightDoc.Line
