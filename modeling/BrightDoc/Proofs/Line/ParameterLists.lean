import BrightDoc.Line.Function
import Mathlib.Algebra.Group.Nat.Even

/-! # The commas of a parameter list

A parameter list is cut at its separators: the commas that stand outside string literals and outside
brackets. Both are told by what is before a place of the text. It is outside literals if the quotes before
it are even in number, and the brackets before it are counted up and down, but never below zero. The
scanner that cuts the list holds just these two facts about the place it is at. -/

namespace BrightDoc.Line

open BrightDoc.Text

/-- The number of open brackets after a character of code. A closing bracket closes nothing where none is
open. -/
def bracketsAfter (depth : Nat) (c : Char) : Nat :=
  if c = '(' || c = '[' || c = '{' then depth + 1
  else if c = ')' || c = ']' || c = '}' then depth - 1
  else depth

/-- The number of brackets that are open before a place of the text, where those inside string literals do
not count. -/
def openBrackets (text : List Char) : Nat → Nat
  | 0 => 0
  | place + 1 =>
    match text[place]? with
    | some c =>
      if Even ((text.take place).count '"') then bracketsAfter (openBrackets text place) c
      else openBrackets text place
    | none => openBrackets text place

/-- A comma that stands outside string literals and brackets. -/
structure IsSeparator (text : List Char) (place : Nat) : Prop where
  comma : text[place]? = some ','
  unquoted : Even ((text.take place).count '"')
  outermost : openBrackets text place = 0

/-- The places of the marks between the pieces of a text, one mark between two pieces. -/
def joints : List (List Char) → List Nat
  | [] => []
  | [_] => []
  | piece :: next :: more => piece.length :: (joints (next :: more)).map (piece.length + 1 + ·)

/-- A piece ends at a mark, and the later pieces are joined at the later marks. The text of the pieces starts
at the place `start` of a longer one. -/
theorem mem_joints_cons {piece : List Char} {more : List (List Char)} (nonempty : more ≠ [])
    {marked : Nat → Prop} {start : Nat} (here : marked (start + piece.length))
    (later : ∀ joint, joint ∈ joints more ↔ marked (start + piece.length + 1 + joint)) (joint : Nat) :
    joint ∈ joints (piece :: more) ↔ piece.length ≤ joint ∧ marked (start + joint) := by
  obtain ⟨next, more, rfl⟩ := List.exists_cons_of_ne_nil nonempty
  rw [joints, List.mem_cons, List.mem_map]
  constructor
  · rintro (rfl | ⟨further, member, rfl⟩)
    · exact ⟨Nat.le_refl _, here⟩
    · refine ⟨by omega, ?_⟩
      have mark := (later further).mp member
      rwa [Nat.add_assoc, Nat.add_assoc, ← Nat.add_assoc piece.length] at mark
  · rintro ⟨within, mark⟩
    rcases Nat.eq_or_lt_of_le within with same | beyond
    · exact Or.inl same.symm
    · have place : start + piece.length + 1 + (joint - (piece.length + 1)) = start + joint := by omega
      refine Or.inr ⟨joint - (piece.length + 1), (later _).mpr ?_, by omega⟩
      rwa [place]

theorem eq_singleton_of_joints {pieces : List (List Char)} (nonempty : pieces ≠ [])
    (none : joints pieces = []) : ∃ piece, pieces = [piece] := by
  obtain ⟨piece, more, rfl⟩ := List.exists_cons_of_ne_nil nonempty
  cases more with
  | nil => exact ⟨piece, rfl⟩
  | cons next more => cases none

section Scanner

variable {depth : Nat} {quoted : Bool} {c : Char}

/-- At a separator the scanner starts a new piece. -/
theorem parameterTextsFrom_cut (piece cs : List Char) :
    parameterTextsFrom 0 false piece (',' :: cs) = piece.reverse :: parameterTextsFrom 0 false [] cs :=
  rfl

/-- Everything else belongs to the piece that the scanner is in. -/
theorem parameterTextsFrom_keep (stays : ¬ (c = ',' ∧ quoted = false ∧ depth = 0))
    (piece cs : List Char) :
    parameterTextsFrom depth quoted piece (c :: cs) =
      parameterTextsFrom (if quoted then depth else bracketsAfter depth c)
        (if c = '"' then !quoted else quoted) (c :: piece) cs := by
  rw [parameterTextsFrom]
  by_cases quote : c = '"'
  · subst quote
    cases quoted <;> rfl
  · rw [if_neg quote, if_neg quote]
    cases quoted with
    | true => rfl
    | false =>
      rw [if_neg Bool.false_ne_true, if_neg Bool.false_ne_true, bracketsAfter]
      split
      · rfl
      split
      · rfl
      · rw [if_neg]
        intro comma
        rw [Bool.and_eq_true, decide_eq_true_eq, decide_eq_true_eq] at comma
        exact stays ⟨comma.1, rfl, comma.2⟩

theorem parameterTextsFrom_ne_nil (depth : Nat) (quoted : Bool) (piece cs : List Char) :
    parameterTextsFrom depth quoted piece cs ≠ [] := by
  induction cs generalizing depth quoted piece with
  | nil => exact List.cons_ne_nil _ _
  | cons c cs ih =>
    by_cases here : c = ',' ∧ quoted = false ∧ depth = 0
    · obtain ⟨rfl, rfl, rfl⟩ := here
      exact List.cons_ne_nil _ _
    · rw [parameterTextsFrom_keep here]
      exact ih _ _ _

end Scanner

section Places

variable {text : List Char} {place : Nat} {c : Char}

/-- Whether a place of the text is inside a string literal. -/
def isQuotedAt (text : List Char) (place : Nat) : Bool :=
  !decide (Even ((text.take place).count '"'))

theorem isQuotedAt_succ (here : text[place]? = some c) :
    isQuotedAt text (place + 1) = if c = '"' then !isQuotedAt text place else isQuotedAt text place := by
  rw [isQuotedAt, isQuotedAt, List.take_add_one, here, Option.toList_some, List.count_append]
  by_cases quote : c = '"'
  · subst quote
    rw [if_pos rfl, List.count_singleton_self]
    simp only [Nat.even_add_one, decide_not]
  · rw [if_neg quote, List.count_singleton, beq_false_of_ne quote]
    rfl

theorem openBrackets_succ (here : text[place]? = some c) :
    openBrackets text (place + 1) =
      if isQuotedAt text place then openBrackets text place
      else bracketsAfter (openBrackets text place) c := by
  rw [openBrackets, here, isQuotedAt]
  by_cases outside : Even ((text.take place).count '"')
  · simp only [outside, if_true, decide_true, Bool.not_true, Bool.false_eq_true, if_false]
  · simp only [outside, if_false, decide_false, Bool.not_false, if_true]

/-- The scanner tells a separator by what it holds. -/
theorem isSeparator_iff (here : text[place]? = some c) :
    IsSeparator text place ↔ c = ',' ∧ isQuotedAt text place = false ∧ openBrackets text place = 0 := by
  rw [isQuotedAt, Bool.not_eq_false', decide_eq_true_eq]
  constructor
  · rintro ⟨comma, unquoted, outermost⟩
    exact ⟨Option.some.inj (here.symm.trans comma), unquoted, outermost⟩
  · rintro ⟨rfl, unquoted, outermost⟩
    exact ⟨here, unquoted, outermost⟩

end Places

/-- From any place of a text on, the scanner cuts at the separators: its pieces, joined by commas, are
what it has held and what is left, and they are joined at the separators that are left. -/
theorem parameterTextsFrom_spec {text before piece rest : List Char} {place : Nat}
    (split : text = before ++ (piece.reverse ++ rest)) (reached : before.length + piece.length = place) :
    let pieces := parameterTextsFrom (openBrackets text place) (isQuotedAt text place) piece rest
    [','].intercalate pieces = piece.reverse ++ rest ∧
      ∀ joint, joint ∈ joints pieces ↔ piece.length ≤ joint ∧ IsSeparator text (before.length + joint) := by
  induction rest generalizing before piece place with
  | nil =>
    refine ⟨by simp [parameterTextsFrom], fun joint => ?_⟩
    refine iff_of_false List.not_mem_nil ?_
    rintro ⟨within, separator⟩
    have inside := (List.getElem?_eq_some_iff.mp separator.comma).1
    simp only [split, List.length_append, List.length_reverse, List.length_nil] at inside
    omega
  | cons c rest ih =>
    have here : text[place]? = some c := by
      rw [split, ← List.append_assoc, List.getElem?_append_right (by simp [reached])]
      simp [reached]
    by_cases cut : IsSeparator text place
    · obtain ⟨rfl, unquoted, outermost⟩ := (isSeparator_iff here).mp cut
      have nextQuoted : isQuotedAt text (place + 1) = false := by
        rw [isQuotedAt_succ here, if_neg (by decide), unquoted]
      have nextBrackets : openBrackets text (place + 1) = 0 := by
        rw [openBrackets_succ here, unquoted, outermost]
        rfl
      obtain ⟨joined, separators⟩ := @ih (before ++ (piece.reverse ++ [','])) [] (place + 1)
        (by simp [split]) (by simp [← reached, Nat.add_assoc])
      rw [nextQuoted, nextBrackets] at joined separators
      have nonempty := parameterTextsFrom_ne_nil 0 false [] rest
      have later : ∀ joint, joint ∈ joints (parameterTextsFrom 0 false [] rest) ↔
          IsSeparator text (before.length + piece.reverse.length + 1 + joint) := by
        intro joint
        rw [separators]
        simp [Nat.add_assoc]
      rw [unquoted, outermost, parameterTextsFrom_cut]
      refine ⟨?_, fun joint => ?_⟩
      · obtain ⟨next, more, same⟩ := List.exists_cons_of_ne_nil nonempty
        rw [same] at joined ⊢
        rw [List.intercalate_cons_cons, joined]
        simp
      · have here : IsSeparator text (before.length + piece.reverse.length) := by
          rwa [List.length_reverse, reached]
        rw [mem_joints_cons nonempty here later, List.length_reverse]
    · have stays := fun found => cut ((isSeparator_iff here).mpr found)
      obtain ⟨joined, separators⟩ := @ih before (c :: piece) (place + 1)
        (by simp [split]) (by simp [← reached, Nat.add_assoc])
      rw [isQuotedAt_succ here, openBrackets_succ here] at joined separators
      rw [parameterTextsFrom_keep stays]
      refine ⟨by rw [joined]; simp, fun joint => ?_⟩
      rw [separators, List.length_cons]
      refine and_congr_left fun separator => ⟨Nat.le_of_succ_le, fun within => ?_⟩
      rcases Nat.eq_or_lt_of_le within with same | beyond
      · rw [← same, reached] at separator
        exact absurd separator cut
      · exact beyond

/-- The pieces that the scanner finds in a text, joined by commas at its separators, are the text. -/
theorem parameterTextsFrom_start (text : List Char) :
    [','].intercalate (parameterTextsFrom 0 false [] text) = text ∧
      ∀ place, place ∈ joints (parameterTextsFrom 0 false [] text) ↔ IsSeparator text place := by
  obtain ⟨joined, separators⟩ := @parameterTextsFrom_spec text [] [] text 0 rfl rfl
  refine ⟨joined, fun place => (separators place).trans ?_⟩
  simp

/-- A list that is not blank has the pieces that the scanner finds. -/
theorem parameterTexts_eq (text : List Char) :
    parameterTexts text = if isAllWhite text then [] else parameterTextsFrom 0 false [] text := by
  obtain ⟨joined, separators⟩ := parameterTextsFrom_start text
  rw [parameterTexts]
  split
  · rename_i piece single
    rw [single, List.intercalate_singleton] at joined
    rw [joined, single, joined]
  · rename_i several
    rw [if_neg]
    intro white
    -- A blank text has no comma.
    have none : joints (parameterTextsFrom 0 false [] text) = [] := by
      rw [List.eq_nil_iff_forall_not_mem]
      intro place member
      have comma := ((separators place).mp member).comma
      have blank := List.all_eq_true.mp white ',' (List.mem_of_getElem? comma)
      exact absurd blank (by decide)
    obtain ⟨piece, single⟩ := eq_singleton_of_joints (parameterTextsFrom_ne_nil 0 false [] text) none
    exact several piece single

/-- A parameter list is cut exactly at its separators: a blank list has no pieces, and the pieces of any
other list, joined by commas, are the list, with the joints at its separators. -/
theorem cut_at_separators (text : List Char) :
    if isAllWhite text then parameterTexts text = []
    else [','].intercalate (parameterTexts text) = text ∧
      ∀ place, place ∈ joints (parameterTexts text) ↔ IsSeparator text place := by
  rw [parameterTexts_eq]
  split
  · rfl
  · exact parameterTextsFrom_start text

/-- Brackets and a literal with commas in them, and a closing bracket too many. -/
example : parameterTexts "a = [1, 2], b = \"x,[\"), c".toList =
    ["a = [1, 2]".toList, " b = \"x,[\")".toList, " c".toList] := by decide

end BrightDoc.Line
