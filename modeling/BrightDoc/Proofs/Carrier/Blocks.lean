import BrightDoc.Carrier.Entry
import BrightDoc.Proofs.Doc.Closers
import Mathlib.Data.List.TakeWhile

/-! # Whole documentation blocks

A documentation block of a text runs from a line that opens it to the next line that closes it, and is
whole if nothing but body lines stand between. For the text of a list of pieces this comes down to the
pieces, as long as no code looks like the first line of a block and no body line like the last one. -/

namespace BrightDoc.Carrier

open BrightDoc.Text

/-- A line between the first and the last one of a documentation block, as it should be. -/
def IsBodyLine (line : List Char) : Prop :=
  [' ', '*'] <+: line ∧ Doc.Closerless line

/-- Every documentation block of the text is whole: after a line that opens one, only body lines come
before the line that closes it. -/
def BlocksIntact (text : String) : Prop :=
  ∀ after, Doc.opener.toList :: after <:+ pieces '\n' text.toList →
    ∃ body rest, after = body ++ Doc.closer.toList :: rest ∧ ∀ line ∈ body, IsBodyLine line

instance (line : List Char) : Decidable (IsBodyLine line) :=
  inferInstanceAs (Decidable (_ ∧ _))

theorem not_isBodyLine_closer : ¬ IsBodyLine Doc.closer.toList :=
  fun body => body.2 ⟨[' '], [], rfl⟩

/-- The body lines of a block end where the first other line stands. -/
theorem exists_body_iff {after : List (List Char)} :
    (∃ body rest, after = body ++ Doc.closer.toList :: rest ∧ ∀ line ∈ body, IsBodyLine line) ↔
      (after.dropWhile fun line => decide (IsBodyLine line)).head? = some Doc.closer.toList := by
  constructor
  · rintro ⟨body, rest, rfl, each⟩
    have dropped : body.dropWhile (fun line => decide (IsBodyLine line)) = [] := by
      rw [List.dropWhile_eq_nil_iff]
      exact fun line member => decide_eq_true (each line member)
    rw [List.dropWhile_append, dropped, List.isEmpty_nil, if_pos rfl,
      List.dropWhile_cons_of_neg (by simp [not_isBodyLine_closer])]
    rfl
  · intro closes
    obtain ⟨rest, left⟩ := List.head?_eq_some_iff.mp closes
    refine ⟨after.takeWhile fun line => decide (IsBodyLine line), rest, ?_, ?_⟩
    · rw [← left, List.takeWhile_append_dropWhile]
    · intro line member
      have kept := List.mem_takeWhile_imp member
      exact of_decide_eq_true kept

instance (text : String) : Decidable (BlocksIntact text) :=
  decidable_of_iff
    (∀ lines ∈ (pieces '\n' text.toList).tails, lines.head? = some Doc.opener.toList →
      (lines.tail.dropWhile fun line => decide (IsBodyLine line)).head? =
        some Doc.closer.toList) <| by
    constructor
    · intro all after isEnd
      exact exists_body_iff.mpr (all _ ((List.mem_tails _ _).mpr isEnd) rfl)
    · intro intact lines isEnd opens
      obtain ⟨after, rfl⟩ := List.head?_eq_some_iff.mp opens
      exact exists_body_iff.mp (intact after ((List.mem_tails _ _).mp isEnd))

/-- What is written as one line of a block gives body lines only. -/
def IsBodyText (s : String) : Prop :=
  ∀ line ∈ pieces '\n' s.toList, IsBodyLine line

namespace Piece

/-- The lines of a block are body lines. -/
def Intact : Piece → Prop
  | block body => ∀ s ∈ body, IsBodyText s
  | code _ => True

/-- No line of a block is the one that closes it, and no line of code opens a block. -/
def Proper : Piece → Prop
  | block body => ∀ s ∈ body, Doc.closer.toList ∉ pieces '\n' s.toList
  | code text => Doc.opener.toList ∉ pieces '\n' text.toList

/-- The lines that a piece gives to the text. -/
def textLines (p : Piece) : List (List Char) :=
  p.lines.flatMap fun s => pieces '\n' s.toList

theorem textLines_block (body : List String) :
    (block body).textLines =
      Doc.opener.toList ::
        ((body.flatMap fun s => pieces '\n' s.toList) ++ [Doc.closer.toList]) := by
  have opened : pieces '\n' Doc.opener.toList = [Doc.opener.toList] := pieces_of_notMem (by decide)
  have closed : pieces '\n' Doc.closer.toList = [Doc.closer.toList] := pieces_of_notMem (by decide)
  rw [textLines, lines, List.cons_append, List.flatMap_cons, List.flatMap_append, opened,
    List.flatMap_singleton, closed]
  rfl

theorem textLines_code (text : String) : (code text).textLines = pieces '\n' text.toList := by
  rw [textLines, lines, List.flatMap_singleton]

end Piece

/-- The lines of a text are those of its pieces. -/
theorem pieces_renderPieces {ps : List Piece} (some : ps ≠ []) :
    pieces '\n' (renderPieces ps).toList = ps.flatMap Piece.textLines := by
  have lines : ps.flatMap Piece.lines ≠ [] := by
    cases ps with
    | nil => exact absurd rfl some
    | cons p more => cases p <;> simp [Piece.lines]
  rw [renderPieces, String.toList_intercalate, show "\n".toList = ['\n'] from rfl,
    pieces_intercalate '\n' (by simpa using lines), List.flatMap_map, List.flatMap_assoc]
  rfl

theorem not_isBodyLine_opener : ¬ IsBodyLine Doc.opener.toList :=
  fun body => absurd body.1 (by decide)

/-- The place of an element that does not come before it is the first one. -/
theorem eq_of_append_cons {α : Type} {a : α} {first second left right : List α}
    (same : first ++ a :: left = second ++ a :: right) (notFirst : a ∉ first)
    (notSecond : a ∉ second) : first = second := by
  induction first generalizing second with
  | nil =>
    cases second with
    | nil => rfl
    | cons b second =>
      cases same
      exact absurd List.mem_cons_self notSecond
  | cons b first ih =>
    cases second with
    | nil =>
      cases same
      exact absurd List.mem_cons_self notFirst
    | cons d second =>
      rw [List.mem_cons, not_or] at notFirst notSecond
      rw [List.cons_append, List.cons_append, List.cons.injEq] at same
      rw [same.1, ih same.2 notFirst.2 notSecond.2]

theorem intact_of_blocksIntact {ps : List Piece} (proper : ∀ p ∈ ps, p.Proper)
    (intact : BlocksIntact (renderPieces ps)) : ∀ p ∈ ps, p.Intact := by
  intro p member
  cases p with
  | code text => trivial
  | block body =>
    have properBody := proper _ member
    obtain ⟨earlier, later, rfl⟩ := List.append_of_mem member
    let lines := body.flatMap fun s => pieces '\n' s.toList
    have place : Doc.opener.toList ::
        (lines ++ Doc.closer.toList :: later.flatMap Piece.textLines) <:+
          pieces '\n' (renderPieces (earlier ++ .block body :: later)).toList := by
      rw [pieces_renderPieces (by simp), List.flatMap_append, List.flatMap_cons,
        Piece.textLines_block]
      refine ⟨earlier.flatMap Piece.textLines, ?_⟩
      simp [lines]
    obtain ⟨found, rest, split, each⟩ := intact _ place
    have same : lines = found := by
      apply eq_of_append_cons split
      · intro closes
        obtain ⟨s, inside, closes⟩ := List.mem_flatMap.mp closes
        exact properBody s inside closes
      · exact fun closes => not_isBodyLine_closer (each _ closes)
    intro s inside line isLine
    exact each line (same ▸ List.mem_flatMap.mpr ⟨s, inside, isLine⟩)

/-- In the lines of whole pieces, a line that opens a block is the first one of a piece. -/
theorem exists_body_of_suffix {ps : List Piece} {after : List (List Char)}
    (proper : ∀ p ∈ ps, p.Proper) (intact : ∀ p ∈ ps, p.Intact)
    (isEnd : Doc.opener.toList :: after <:+ ps.flatMap Piece.textLines) :
    ∃ body rest, after = body ++ Doc.closer.toList :: rest ∧ ∀ line ∈ body, IsBodyLine line := by
  induction ps with
  | nil => cases List.suffix_nil.mp isEnd
  | cons p more ih =>
    have here := proper p List.mem_cons_self
    have whole := intact p List.mem_cons_self
    have next := ih (fun q member => proper q (List.mem_cons_of_mem _ member))
      (fun q member => intact q (List.mem_cons_of_mem _ member))
    rw [List.flatMap_cons] at isEnd
    cases p with
    | code text =>
      rw [Piece.textLines_code] at isEnd
      exact next (suffix_of_notMem here isEnd)
    | block body =>
      rw [Piece.textLines_block, List.cons_append, List.suffix_cons_iff] at isEnd
      rcases isEnd with same | isEnd
      · refine ⟨body.flatMap fun s => pieces '\n' s.toList, more.flatMap Piece.textLines, ?_, ?_⟩
        · rw [(List.cons.inj same).2, List.append_assoc]
          rfl
        · intro line member
          obtain ⟨s, inside, isLine⟩ := List.mem_flatMap.mp member
          exact whole s inside line isLine
      · apply next
        apply suffix_of_notMem _ isEnd
        intro opens
        rcases List.mem_append.mp opens with opens | opens
        · obtain ⟨s, inside, isLine⟩ := List.mem_flatMap.mp opens
          exact not_isBodyLine_opener (whole s inside _ isLine)
        · exact absurd opens (by decide)

theorem blocksIntact_of_intact {ps : List Piece} (proper : ∀ p ∈ ps, p.Proper)
    (intact : ∀ p ∈ ps, p.Intact) : BlocksIntact (renderPieces ps) := by
  intro after isEnd
  cases ps with
  | nil =>
    rw [show pieces '\n' (renderPieces []).toList = [[]] from rfl, List.suffix_cons_iff] at isEnd
    rcases isEnd with same | isEnd
    · cases same
    · cases List.suffix_nil.mp isEnd
  | cons p more =>
    rw [pieces_renderPieces (by simp)] at isEnd
    exact exists_body_of_suffix proper intact isEnd

theorem blocksIntact_renderPieces_iff {ps : List Piece} (proper : ∀ p ∈ ps, p.Proper) :
    BlocksIntact (renderPieces ps) ↔ ∀ p ∈ ps, p.Intact :=
  ⟨intact_of_blocksIntact proper, blocksIntact_of_intact proper⟩

end BrightDoc.Carrier
