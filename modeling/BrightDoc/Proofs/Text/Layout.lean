import BrightDoc.Proofs.Text.Pieces
import Mathlib.Data.List.Forall2

/-! # Texts laid out in another way

A text keeps its lines, but for the blanks before them, where blanks are put before its lines and its
lines end in a carriage return and a line feed instead of a line feed. What is searched for within a
line is found in such a text where it is found in the text itself. -/

namespace BrightDoc.Text

/-- The text with blanks put before its lines, `indent i` before the line with the number `i`, and with
another end for each line that ends in a line feed. -/
def relaid (ending : List Char) (indent : Nat → List Char) (cs : List Char) : List Char :=
  ending.intercalate ((pieces '\n' cs).mapIdx fun i line => indent i ++ line)

/-- A line feed, with or without a carriage return before it. -/
def IsLineEnd (ending : List Char) : Prop :=
  ending = ['\n'] ∨ ending = ['\r', '\n']

/-- The second line is the first one with spaces and tabs before it. -/
def Indented (line other : List Char) : Prop :=
  ∃ blanks, (∀ c ∈ blanks, c = ' ' ∨ c = '\t') ∧ other = blanks ++ line

/-- Nothing in the line ends it, or looks like part of its end. -/
def IsLine (line : List Char) : Prop :=
  '\n' ∉ line ∧ '\r' ∉ line

theorem isLine_of_indented {line other : List Char} (indented : Indented line other)
    (isLine : IsLine line) : IsLine other := by
  obtain ⟨blanks, blank, rfl⟩ := indented
  constructor
  · intro member
    rcases List.mem_append.mp member with member | member
    · exact absurd (blank '\n' member) (by decide)
    · exact isLine.1 member
  · intro member
    rcases List.mem_append.mp member with member | member
    · exact absurd (blank '\r' member) (by decide)
    · exact isLine.2 member

theorem isLine_of_mem_pieces {cs line : List Char} (noReturn : '\r' ∉ cs)
    (member : line ∈ pieces '\n' cs) : IsLine line := by
  obtain ⟨isPart, feedless⟩ := infix_of_mem_pieces member
  exact ⟨feedless, fun inside => noReturn (isPart.subset inside)⟩

theorem isLine_of_forall₂_indented {texts texts' : List (List Char)}
    (indented : List.Forall₂ Indented texts texts') (isLine : ∀ line ∈ texts, IsLine line) :
    ∀ line ∈ texts', IsLine line := by
  induction indented with
  | nil => exact isLine
  | cons here _ ih =>
    rw [List.forall_mem_cons] at isLine ⊢
    exact ⟨isLine_of_indented here isLine.1, ih isLine.2⟩

/-- The lines that are put together again are those of the text, with blanks before them. -/
theorem forall₂_indented (texts : List (List Char)) :
    ∀ indent : Nat → List Char, (∀ i, ∀ c ∈ indent i, c = ' ' ∨ c = '\t') →
      List.Forall₂ Indented texts (texts.mapIdx fun i line => indent i ++ line) := by
  induction texts with
  | nil =>
    intro indent blank
    exact .nil
  | cons line more ih =>
    intro indent blank
    rw [List.mapIdx_cons]
    exact .cons ⟨indent 0, blank 0, rfl⟩ (ih (fun i => indent (i + 1)) fun i => blank (i + 1))

theorem lines_append_ending {ending line : List Char} (isEnd : IsLineEnd ending) (isLine : IsLine line)
    (rest : List Char) : lines (line ++ (ending ++ rest)) = line :: lines rest := by
  rcases isEnd with rfl | rfl
  · apply lines_append_feed isLine.1
    rintro c last rfl
    exact isLine.2 (List.mem_of_getLast? last)
  · rw [lines, linesFrom_append isLine.1]
    change (line.reverse ++ []).reverse :: linesFrom [] rest = line :: lines rest
    rw [List.append_nil, List.reverse_reverse, lines]

/-- Lines that are put together to a text are its lines, but for an empty one at the end. -/
theorem lines_intercalate {ending : List Char} (isEnd : IsLineEnd ending) {texts : List (List Char)}
    (nonempty : texts ≠ []) (isLine : ∀ line ∈ texts, IsLine line) :
    texts = lines (ending.intercalate texts) ∨ texts = lines (ending.intercalate texts) ++ [[]] := by
  induction texts with
  | nil => exact absurd rfl nonempty
  | cons line more ih =>
    rw [List.forall_mem_cons] at isLine
    cases more with
    | nil =>
      rw [List.intercalate_singleton]
      cases line with
      | nil => exact Or.inr rfl
      | cons c cs =>
        have single := linesFrom_append isLine.1.1 [] []
        rw [List.append_nil, List.append_nil] at single
        left
        rw [lines, single, linesFrom, if_neg (by simp), List.reverse_reverse]
    | cons next more =>
      rw [List.intercalate_cons_cons, List.append_assoc, lines_append_ending isEnd isLine.1]
      rcases ih (by simp) isLine.2 with same | same
      · exact Or.inl (congrArg (line :: ·) same)
      · exact Or.inr (congrArg (line :: ·) same)

section Search

variable {α : Type} {recognise? : List Char → Option α} {mark : Char}

/-- What never reaches over a mark is found before it, else after it. -/
theorem leftmost?_append (stops : ∀ cs rest, recognise? (cs ++ mark :: rest) = recognise? cs)
    (cs rest : List Char) :
    leftmost? recognise? (cs ++ mark :: rest) =
      (leftmost? recognise? cs).or (leftmost? recognise? rest) := by
  induction cs with
  | nil =>
    have here := stops [] rest
    rw [List.nil_append] at here
    rw [List.nil_append, leftmost?, leftmost?, here]
    cases recognise? [] <;> rfl
  | cons c cs ih =>
    have here := stops (c :: cs) rest
    rw [List.cons_append] at here
    rw [List.cons_append, leftmost?, leftmost?, here, ih]
    cases recognise? (c :: cs) <;> rfl

/-- What does not start with any of some characters is not found at them. -/
theorem leftmost?_append_left {before : List Char}
    (refused : ∀ c ∈ before, ∀ cs, recognise? (c :: cs) = none) (cs : List Char) :
    leftmost? recognise? (before ++ cs) = leftmost? recognise? cs := by
  induction before with
  | nil => rfl
  | cons c before ih =>
    rw [List.forall_mem_cons] at refused
    rw [List.cons_append, leftmost?, refused.1]
    exact ih refused.2

/-- A word that does not hold the mark is read before the mark. -/
theorem after?_append {word : String} (free : mark ∉ word.toList) (cs rest : List Char) :
    after? word (cs ++ mark :: rest) = (after? word cs).map (· ++ mark :: rest) := by
  have cut : ∀ (letters cs : List Char), mark ∉ letters →
      letters.isPrefixOf? (cs ++ mark :: rest) =
        (letters.isPrefixOf? cs).map (· ++ mark :: rest) := by
    intro letters
    induction letters with
    | nil =>
      intro cs _
      rfl
    | cons letter letters ih =>
      intro cs free
      rw [List.mem_cons, not_or] at free
      cases cs with
      | nil => simp [List.isPrefixOf?, Ne.symm free.1]
      | cons c cs =>
        rw [List.cons_append, List.isPrefixOf?, List.isPrefixOf?]
        split
        · exact ih cs free.2
        · rfl
  exact cut word.toList cs free

end Search

end BrightDoc.Text
