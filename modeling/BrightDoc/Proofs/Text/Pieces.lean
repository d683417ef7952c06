import BrightDoc.Text.Search
import Mathlib.Data.List.Infix

/-! # Pieces of a text

Cutting a text at every mark undoes joining texts with the mark, as far as the joined texts hold no
mark themselves; where they do, they come apart at it. -/

namespace BrightDoc.Text

theorem pieces_ne_nil (mark : Char) (cs : List Char) : pieces mark cs ≠ [] := by
  cases cs with
  | nil => simp [pieces]
  | cons c cs =>
    rw [pieces]
    split
    · simp
    · split <;> simp

theorem pieces_of_notMem {mark : Char} {cs : List Char} (free : mark ∉ cs) :
    pieces mark cs = [cs] := by
  induction cs with
  | nil => rfl
  | cons c cs ih =>
    rw [List.mem_cons, not_or] at free
    rw [pieces, if_neg (Ne.symm free.1), ih free.2]

theorem pieces_append_mark (mark : Char) (first second : List Char) :
    pieces mark (first ++ mark :: second) = pieces mark first ++ pieces mark second := by
  induction first with
  | nil => simp [pieces]
  | cons c cs ih =>
    rw [List.cons_append, pieces, pieces, ih]
    split
    · rfl
    · cases found : pieces mark cs with
      | nil => exact absurd found (pieces_ne_nil mark cs)
      | cons piece more => rfl

theorem pieces_intercalate (mark : Char) {texts : List (List Char)} (some : texts ≠ []) :
    pieces mark ([mark].intercalate texts) = texts.flatMap (pieces mark) := by
  induction texts with
  | nil => exact absurd rfl some
  | cons text more ih =>
    cases more with
    | nil => simp
    | cons next more =>
      rw [List.intercalate_cons_cons, List.append_assoc, List.singleton_append,
        pieces_append_mark, ih (by simp)]
      rfl

theorem intercalate_pieces (mark : Char) (cs : List Char) :
    [mark].intercalate (pieces mark cs) = cs := by
  induction cs with
  | nil => rfl
  | cons c cs ih =>
    obtain ⟨piece, more, found⟩ := List.exists_cons_of_ne_nil (pieces_ne_nil mark cs)
    rw [found] at ih
    rw [pieces, found]
    split
    · rename_i same
      rw [List.intercalate_cons_cons, ih, same]
      rfl
    · cases more with
      | nil => simpa using ih
      | cons next more =>
        rw [List.intercalate_cons_cons] at ih ⊢
        rw [← ih]
        rfl

theorem mem_intercalate {separator : List Char} {texts : List (List Char)} {c : Char}
    (member : c ∈ separator.intercalate texts) : c ∈ separator ∨ ∃ text ∈ texts, c ∈ text := by
  induction texts with
  | nil => cases member
  | cons text more ih =>
    cases more with
    | nil => exact Or.inr ⟨text, List.mem_cons_self, by simpa using member⟩
    | cons next more =>
      rw [List.intercalate_cons_cons, List.append_assoc, List.mem_append, List.mem_append] at member
      rcases member with member | member | member
      · exact Or.inr ⟨text, List.mem_cons_self, member⟩
      · exact Or.inl member
      · exact (ih member).imp_right fun ⟨other, inside, member⟩ =>
          ⟨other, List.mem_cons_of_mem _ inside, member⟩

/-- A text without marks before another one goes to the first piece of that. -/
theorem pieces_append_of_notMem {mark : Char} {lead : List Char} (free : mark ∉ lead)
    (cs : List Char) :
    pieces mark (lead ++ cs) = (lead ++ (pieces mark cs).headD []) :: (pieces mark cs).tail := by
  induction lead with
  | nil =>
    cases found : pieces mark cs with
    | nil => exact absurd found (pieces_ne_nil mark cs)
    | cons piece more => simp [found]
  | cons c lead ih =>
    rw [List.mem_cons, not_or] at free
    rw [List.cons_append, pieces, if_neg (Ne.symm free.1), ih free.2]
    rfl

theorem infix_of_mem_pieces {mark : Char} {cs piece : List Char} (member : piece ∈ pieces mark cs) :
    piece <:+: cs ∧ mark ∉ piece := by
  suffices held : (∃ first more, pieces mark cs = first :: more ∧ first <+: cs) ∧
      ∀ piece ∈ pieces mark cs, piece <:+: cs ∧ mark ∉ piece from held.2 piece member
  clear member
  induction cs with
  | nil => exact ⟨⟨[], [], rfl, List.prefix_refl _⟩, by simp [pieces]⟩
  | cons c cs ih =>
    obtain ⟨⟨first, more, split, isStart⟩, each⟩ := ih
    rw [pieces]
    split
    · refine ⟨⟨[], _, rfl, List.nil_prefix⟩, ?_⟩
      intro piece member
      rcases List.mem_cons.mp member with rfl | member
      · exact ⟨List.nil_infix, by simp⟩
      · exact ⟨(each piece member).1.trans (List.suffix_cons c cs).isInfix, (each piece member).2⟩
    · rename_i other
      rw [split] at each ⊢
      refine ⟨⟨c :: first, more, rfl, List.cons_prefix_cons.mpr ⟨rfl, isStart⟩⟩, ?_⟩
      intro piece member
      rcases List.mem_cons.mp member with rfl | member
      · refine ⟨(List.cons_prefix_cons.mpr ⟨rfl, isStart⟩).isInfix, ?_⟩
        rw [List.mem_cons, not_or]
        exact ⟨Ne.symm other, (each first List.mem_cons_self).2⟩
      · have inside := each piece (List.mem_cons_of_mem _ member)
        exact ⟨inside.1.trans (List.suffix_cons c cs).isInfix, inside.2⟩

theorem pieces_map {mark : Char} {f : Char → Char} (kept : ∀ c, f c = mark ↔ c = mark)
    (cs : List Char) : pieces mark (cs.map f) = (pieces mark cs).map (List.map f) := by
  induction cs with
  | nil => rfl
  | cons c cs ih =>
    rw [List.map_cons, pieces, pieces, ih]
    by_cases here : c = mark
    · rw [if_pos ((kept c).mpr here), if_pos here]
      rfl
    · rw [if_neg (fun same => here ((kept c).mp same)), if_neg here]
      cases found : pieces mark cs with
      | nil => exact absurd found (pieces_ne_nil mark cs)
      | cons piece more => rfl

theorem replaceChar_toList (old new : Char) (s : String) :
    (replaceChar old new s).toList = s.toList.map fun c => if c = old then new else c := by
  rw [replaceChar, String.toList_ofList]

/-- What is in a text after a replacement was put there or was there before. -/
theorem mem_replaceChar {old new c : Char} {s : String}
    (member : c ∈ (replaceChar old new s).toList) :
    c = new ∧ old ∈ s.toList ∨ c ≠ old ∧ c ∈ s.toList := by
  rw [replaceChar_toList] at member
  obtain ⟨d, inside, same⟩ := List.mem_map.mp member
  split at same
  · rename_i here
    exact Or.inl ⟨same.symm, here ▸ inside⟩
  · rename_i other
    subst same
    exact Or.inr ⟨other, inside⟩

/-- The lines of a text hold no line feeds. -/
theorem lines_notMem {cs line : List Char} (member : line ∈ lines cs) : '\n' ∉ line := by
  have held : ∀ (cs start : List Char), '\n' ∉ start → ∀ line ∈ linesFrom start cs, '\n' ∉ line := by
    intro cs
    induction cs with
    | nil =>
      intro start free line member
      rw [linesFrom] at member
      split at member
      · cases member
      · rw [List.mem_singleton.mp member, List.mem_reverse]
        exact free
    | cons c cs ih =>
      intro start free line member
      unfold linesFrom at member
      split at member
      · rcases List.mem_cons.mp member with rfl | member
        · split
          · rw [List.mem_reverse]
            exact fun inside => free (List.mem_cons_of_mem _ inside)
          · rw [List.mem_reverse]
            exact free
        · exact ih [] (by simp) line member
      · rename_i other
        refine ih (c :: start) ?_ line member
        rw [List.mem_cons, not_or]
        exact ⟨Ne.symm other, free⟩
  exact held cs [] (by simp) line member

/-- The text of some lines. Each ends in a carriage return and a line feed, so that a line may end in a
carriage return of its own. -/
def ofLines (lines : List (List Char)) : List Char :=
  lines.flatMap (· ++ ['\r', '\n'])

theorem linesFrom_append {line : List Char} (feedless : '\n' ∉ line) (start rest : List Char) :
    linesFrom start (line ++ rest) = linesFrom (line.reverse ++ start) rest := by
  induction line generalizing start with
  | nil => rfl
  | cons c line ih =>
    rw [List.mem_cons, not_or] at feedless
    rw [List.cons_append, linesFrom.eq_def]
    dsimp only
    rw [if_neg (Ne.symm feedless.1), ih feedless.2, List.reverse_cons, List.append_assoc,
      List.singleton_append]

/-- A text goes on with its next line after a line feed. -/
theorem lines_append_feed {line : List Char} (feedless : '\n' ∉ line)
    (noReturn : ∀ c ∈ line.getLast?, c ≠ '\r') (rest : List Char) :
    lines (line ++ '\n' :: rest) = line :: lines rest := by
  rw [lines, linesFrom_append feedless, List.append_nil, linesFrom, if_pos rfl, List.reverse_reverse]
  · rfl
  · intro start last
    apply noReturn '\r' _ rfl
    rw [← List.reverse_reverse line, last, List.getLast?_reverse]
    rfl

/-- Any lines without line feeds are the lines of a text. -/
theorem lines_ofLines {texts : List (List Char)} (feedless : ∀ line ∈ texts, '\n' ∉ line) :
    lines (ofLines texts) = texts := by
  induction texts with
  | nil => rfl
  | cons line more ih =>
    rw [List.forall_mem_cons] at feedless
    have rest : linesFrom [] (ofLines more) = more := ih feedless.2
    rw [ofLines, List.flatMap_cons, List.append_assoc, lines, linesFrom_append feedless.1]
    change (line.reverse ++ []).reverse :: linesFrom [] (ofLines more) = line :: more
    rw [rest, List.append_nil, List.reverse_reverse]

theorem takeWhile_of_head? {p : Char → Bool} {cs : List Char} (stops : ∀ c ∈ cs.head?, p c = false) :
    cs.takeWhile p = [] ∧ cs.dropWhile p = cs := by
  cases cs with
  | nil => exact ⟨rfl, rfl⟩
  | cons c cs =>
    have stop := stops c rfl
    simp [stop]

theorem cutAtLast?_eq_none_iff {mark : Char} {cs : List Char} :
    cutAtLast? mark cs = none ↔ mark ∉ cs := by
  induction cs with
  | nil => simp [cutAtLast?]
  | cons c cs ih =>
    rw [cutAtLast?, List.mem_cons, not_or, ← ih]
    cases cutAtLast? mark cs with
    | none => simp [eq_comm]
    | some parts => simp

/-- The last mark of a text is the one that no other comes after. -/
theorem cutAtLast?_append {mark : Char} {rest : List Char} (free : mark ∉ rest) (before : List Char) :
    cutAtLast? mark (before ++ mark :: rest) = some (before, rest) := by
  induction before with
  | nil => rw [List.nil_append, cutAtLast?, cutAtLast?_eq_none_iff.mpr free, if_pos rfl]
  | cons c before ih => rw [List.cons_append, cutAtLast?, ih]

/-- A text without marks before another one goes to what is before the cut. -/
theorem cutAtFirst?_append_of_notMem {mark : Char} {lead : List Char} (free : mark ∉ lead)
    (cs : List Char) :
    cutAtFirst? mark (lead ++ cs) = (cutAtFirst? mark cs).map (Prod.map (lead ++ ·) id) := by
  induction lead with
  | nil => exact Option.map_id_apply.symm
  | cons c lead ih =>
    rw [List.mem_cons, not_or] at free
    rw [List.cons_append, cutAtFirst?, if_neg (Ne.symm free.1), ih free.2, Option.map_map]
    rfl

theorem cutAtLast?_append_of_notMem {mark : Char} {lead : List Char} (free : mark ∉ lead)
    (cs : List Char) :
    cutAtLast? mark (lead ++ cs) = (cutAtLast? mark cs).map (Prod.map (lead ++ ·) id) := by
  induction lead with
  | nil => exact Option.map_id_apply.symm
  | cons c lead ih =>
    rw [List.mem_cons, not_or] at free
    rw [List.cons_append, cutAtLast?, ih free.2]
    cases cutAtLast? mark cs with
    | none => exact if_neg (Ne.symm free.1)
    | some parts => rfl

/-- What starts with an element that the first of two lists lacks is an end of the second one. -/
theorem suffix_of_notMem {α : Type} {a : α} {after lead rest : List α} (free : a ∉ lead)
    (isEnd : a :: after <:+ lead ++ rest) : a :: after <:+ rest := by
  induction lead with
  | nil => exact isEnd
  | cons b lead ih =>
    rw [List.mem_cons, not_or] at free
    rw [List.cons_append, List.suffix_cons_iff] at isEnd
    rcases isEnd with same | isEnd
    · exact absurd (List.cons.inj same).1 free.1
    · exact ih free.2 isEnd

end BrightDoc.Text
