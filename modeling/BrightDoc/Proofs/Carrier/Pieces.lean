import BrightDoc.Proofs.Carrier.Lines

/-! # The pieces of declarations

When the pieces that stand for a declaration are intact. A list of parts is put together from smaller
ones, and so is the condition on which all of it is intact; `IntactIff` carries both along. -/

namespace BrightDoc.Carrier

open BrightDoc.Text BrightDoc.Doc
open BrightDoc.Line (Plain)

/-- All parts are proper, and all are intact exactly if `P` holds. -/
structure IntactIff {α : Type} (Proper Intact : α → Prop) (P : Prop) (parts : List α) : Prop where
  proper : ∀ part ∈ parts, Proper part
  intact : (∀ part ∈ parts, Intact part) ↔ P

namespace IntactIff

variable {α β : Type} {Proper Intact : α → Prop} {P Q : Prop} {first second parts : List α}

theorem congr (iff : IntactIff Proper Intact P parts) (same : P ↔ Q) :
    IntactIff Proper Intact Q parts :=
  ⟨iff.proper, iff.intact.trans same⟩

theorem append (left : IntactIff Proper Intact P first)
    (right : IntactIff Proper Intact Q second) :
    IntactIff Proper Intact (P ∧ Q) (first ++ second) := by
  refine ⟨List.forall_mem_append.mpr ⟨left.proper, right.proper⟩, ?_⟩
  rw [List.forall_mem_append]
  exact and_congr left.intact right.intact

theorem nil (holds : P) : IntactIff Proper Intact P [] :=
  ⟨by simp, iff_of_true (by simp) holds⟩

theorem cons {part : α} (head : IntactIff Proper Intact P [part])
    (tail : IntactIff Proper Intact Q parts) : IntactIff Proper Intact (P ∧ Q) (part :: parts) :=
  head.append tail

theorem single {part : α} (proper : Proper part) (intact : Intact part ↔ P) :
    IntactIff Proper Intact P [part] := by
  refine ⟨?_, ?_⟩
  · intro other member
    rw [List.mem_singleton.mp member]
    exact proper
  · rw [← intact]
    constructor
    · intro all
      exact all part (List.mem_singleton.mpr rfl)
    · intro here other member
      rw [List.mem_singleton.mp member]
      exact here

theorem always (each : ∀ part ∈ parts, Proper part ∧ Intact part) :
    IntactIff Proper Intact True parts :=
  ⟨fun part member => (each part member).1,
    iff_true_intro fun part member => (each part member).2⟩

theorem flatMap {items : List β} {f : β → List α} {R : β → Prop}
    (each : ∀ item ∈ items, IntactIff Proper Intact (R item) (f item)) :
    IntactIff Proper Intact (∀ item ∈ items, R item) (items.flatMap f) := by
  refine ⟨?_, ?_⟩
  · intro part member
    obtain ⟨item, inside, member⟩ := List.mem_flatMap.mp member
    exact (each item inside).proper part member
  · constructor
    · intro all item inside
      apply (each item inside).intact.mp
      intro part member
      exact all part (List.mem_flatMap.mpr ⟨item, inside, member⟩)
    · intro all part member
      obtain ⟨item, inside, member⟩ := List.mem_flatMap.mp member
      exact (each item inside).intact.mpr (all item inside) part member

theorem map {items : List β} {f : β → α}
    (each : ∀ item ∈ items, IntactIff Proper Intact True [f item]) :
    IntactIff Proper Intact True (items.map f) := by
  have whole := flatMap each
  rw [← List.map_eq_flatMap] at whole
  exact whole.congr (iff_true_intro fun _ _ => trivial)

end IntactIff

/-- When the lines of a block are body lines. -/
abbrev BodyIff (P : Prop) (body : List String) : Prop :=
  IntactIff (fun s => closer.toList ∉ pieces '\n' s.toList) IsBodyText P body

/-- When some pieces are intact. -/
abbrev PiecesIff (P : Prop) (ps : List Piece) : Prop :=
  IntactIff Piece.Proper Piece.Intact P ps

theorem bodyIff_docLines {body : List String} (docLines : ∀ s ∈ body, DocLine s) :
    BodyIff True body :=
  .always fun s member =>
    ⟨closer_notMem_of_docLine (docLines s member), isBodyText_of_docLine (docLines s member)⟩

theorem bodyIff_docLine {s : String} (line : DocLine s) : BodyIff True [s] :=
  bodyIff_docLines (List.forall_mem_singleton.mpr line)

theorem piecesIff_block {P : Prop} {body : List String} (iff : BodyIff P body) :
    PiecesIff P [.block body] :=
  .single iff.proper iff.intact

/-- A line of code, with or without a line feed at its end. -/
theorem piecesIff_code {text : String} (line : List Char)
    (written : text.toList = line ∨ text.toList = line ++ ['\n']) (feedless : '\n' ∉ line)
    (notSlash : line.head? ≠ some '/') : PiecesIff True [.code text] := by
  apply IntactIff.single _ (iff_true_intro trivial)
  have notOpener : line ≠ opener.toList := by
    rintro rfl
    exact notSlash rfl
  intro opens
  rcases written with same | same
  · rw [same, pieces_of_notMem feedless, List.mem_singleton] at opens
    exact notOpener opens.symm
  · rw [same, pieces_append_mark, pieces_of_notMem feedless, List.singleton_append,
      List.mem_cons] at opens
    rcases opens with opens | opens
    · exact notOpener opens.symm
    · exact absurd opens (by decide)

theorem head?_append_ne {first second : List Char} (plain : Plain first)
    (notSlash : second.head? ≠ some '/') : (first ++ second).head? ≠ some '/' := by
  cases first with
  | nil => exact notSlash
  | cons c cs =>
    intro slash
    cases slash
    exact (plain '/' List.mem_cons_self).2.1 rfl

theorem feedless_of_plain {cs : List Char} (plain : Plain cs) : '\n' ∉ cs :=
  fun feed => (plain _ feed).2.2 rfl

theorem feedless_paramNames {f : FunctionDecl} (plain : ∀ p ∈ f.params, p.IsPlain) :
    '\n' ∉ (paramNames f).toList := by
  rw [paramNames, String.toList_intercalate]
  intro feed
  rcases mem_intercalate feed with separator | ⟨text, inside, feed⟩
  · exact absurd separator (by decide)
  · obtain ⟨name, isName, rfl⟩ := List.mem_map.mp inside
    obtain ⟨p, member, rfl⟩ := List.mem_map.mp isName
    exact feedless_of_plain (plain p member).name feed

theorem piecesIff_stub {lead : String} {f : FunctionDecl} (plain : ∀ p ∈ f.params, p.IsPlain)
    (feedless : '\n' ∉ lead.toList) (notSlash : lead.toList.head? ≠ some '/') :
    PiecesIff True [stub lead f] := by
  apply piecesIff_code (lead.toList ++ ("(" ++ paramNames f ++ ") \x7b \x7d;").toList)
  · right
    simp
  · simp [feedless, feedless_paramNames plain]
  · cases found : lead.toList with
    | nil => simp
    | cons c cs =>
      rw [found] at notSlash
      exact notSlash

end BrightDoc.Carrier
