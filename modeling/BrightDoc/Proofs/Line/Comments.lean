import BrightDoc.Proofs.Text.Columns
import Mathlib.Algebra.Group.Nat.Even

/-! # Comments that end a line

Where a line is split into code and comment is told by its quotes alone: the comment starts at the first
apostrophe with an even number of quotes before it. -/

namespace BrightDoc.Line

/-- The line is some code and a comment that ends it: the comment starts at the first apostrophe that
stands outside string literals, that is, with an even number of quotes before it. -/
structure EndsInComment (line code comment : List Char) : Prop where
  whole : line = code ++ comment
  apostrophe : comment.head? = some '\''
  outside : Even (code.count '"')
  first : ∀ before after, code = before ++ '\'' :: after → ¬ Even (before.count '"')

/-- `Outside quoted code`: a place after the given code is outside string literals, if the code starts
inside one or not as `quoted` tells. -/
def Outside (quoted : Bool) (code : List Char) : Prop :=
  Even (code.count '"') ↔ quoted = false

theorem outside_cons (quoted : Bool) (c : Char) (code : List Char) :
    Outside quoted (c :: code) ↔ Outside (if c = '"' then !quoted else quoted) code := by
  rw [Outside, Outside]
  by_cases quote : c = '"'
  · subst quote
    rw [List.count_cons_self, Nat.even_add_one, if_pos rfl]
    cases quoted <;> simp
  · rw [List.count_cons_of_ne quote, if_neg quote]

/-- A line is cut at its first apostrophe outside string literals. -/
theorem cutComment_of_outside {quoted : Bool} {code : List Char} (rest : List Char)
    (outside : Outside quoted code)
    (first : ∀ before after, code = before ++ '\'' :: after → ¬ Outside quoted before) :
    cutComment quoted (code ++ '\'' :: rest) = (code, some ('\'' :: rest)) := by
  induction code generalizing quoted with
  | nil =>
    have unquoted : quoted = false := outside.mp (by simp)
    rw [List.nil_append, cutComment, unquoted]
    rfl
  | cons c code ih =>
    have inside : ¬ (decide (c = '\'') && !quoted) = true := by
      intro here
      simp only [Bool.and_eq_true, decide_eq_true_eq, Bool.not_eq_true'] at here
      apply first [] code (by rw [here.1]; rfl)
      simp [Outside, here.2]
    have tail := ih ((outside_cons quoted c code).mp outside) (by
      intro before after split isOutside
      apply first (c :: before) after (by rw [split]; rfl)
      exact (outside_cons quoted c before).mpr isOutside)
    rw [List.cons_append, cutComment, if_neg inside, tail]

/-- Nothing else is a cut: the code before a comment leaves all literals closed, and the apostrophes in
it are inside literals. -/
theorem outside_of_cutComment {quoted : Bool} {line code comment : List Char}
    (cut : cutComment quoted line = (code, some comment)) :
    Outside quoted code ∧ ∀ before after, code = before ++ '\'' :: after → ¬ Outside quoted before := by
  induction line generalizing quoted code with
  | nil => cases cut
  | cons c line ih =>
    rw [cutComment] at cut
    split at cut
    · rename_i here
      cases cut
      simp only [Bool.and_eq_true, Bool.not_eq_true'] at here
      exact ⟨by simp [Outside, here.2], by simp⟩
    · rename_i inside
      cases tail : cutComment (if c = '"' then !quoted else quoted) line with
      | mk code' comment' =>
        rw [tail] at cut
        cases cut
        obtain ⟨outside, first⟩ := ih tail
        refine ⟨(outside_cons quoted c code').mpr outside, ?_⟩
        intro before after split isOutside
        cases before with
        | nil =>
          have unquoted : quoted = false := isOutside.mp (by simp)
          rw [List.nil_append] at split
          cases split
          exact inside (by simp [unquoted])
        | cons b before =>
          rw [List.cons_append] at split
          cases split
          exact first before after rfl ((outside_cons quoted c before).mp isOutside)

/-- The comment that ends a line is the one that the line is split at. -/
theorem endsInComment_iff {line code comment : List Char} :
    EndsInComment line code comment ↔ splitComment line = (code, some comment) := by
  constructor
  · intro ends
    obtain ⟨rest, rfl⟩ := List.head?_eq_some_iff.mp ends.apostrophe
    rw [ends.whole, splitComment]
    apply cutComment_of_outside
    · simpa [Outside] using ends.outside
    · intro before after split
      simpa [Outside] using ends.first before after split
  · intro cut
    have whole := splitComment_append line
    obtain ⟨rest, starts⟩ := cutComment_some (congrArg Prod.snd cut)
    obtain ⟨outside, first⟩ := outside_of_cutComment cut
    rw [cut] at whole
    refine ⟨whole.symm, ?_, ?_, ?_⟩
    · rw [starts]
      rfl
    · simpa [Outside] using outside
    · intro before after split
      simpa [Outside] using first before after split

end BrightDoc.Line
