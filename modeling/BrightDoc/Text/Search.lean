import BrightDoc.Text.Space

/-!
Searching and cutting texts: the leftmost place where something is recognised, the last place of a
character, the lines of a text, and lengths in UTF-8 bytes.
-/

namespace BrightDoc.Text

/-- The result of `recognise?` at the leftmost place of the text where it gives one. -/
def leftmost? {α : Type} (recognise? : List Char → Option α) : List Char → Option α
  | [] => recognise? []
  | c :: cs =>
    match recognise? (c :: cs) with
    | some a => some a
    | none => leftmost? recognise? cs

/-- The text after `word` where it starts with it. -/
def after? (word : String) (cs : List Char) : Option (List Char) :=
  word.toList.isPrefixOf? cs

/-- Whether `word` occurs in the text. -/
def contains (word : String) (cs : List Char) : Bool :=
  (leftmost? (after? word) cs).isSome

/-- The text before and after the last `mark` in it. -/
def cutAtLast? (mark : Char) : List Char → Option (List Char × List Char)
  | [] => none
  | c :: cs =>
    match cutAtLast? mark cs with
    | some (before, rest) => some (c :: before, rest)
    | none => if c = mark then some ([], cs) else none

/-- The text before and after the first `mark` in it. -/
def cutAtFirst? (mark : Char) : List Char → Option (List Char × List Char)
  | [] => none
  | c :: cs =>
    if c = mark then some ([], cs)
    else (cutAtFirst? mark cs).map fun (before, rest) => (c :: before, rest)

/-- The text up to the end of its line. -/
def restOfLine (cs : List Char) : List Char :=
  cs.takeWhile (· != '\n')

/-- The pieces between the places of `mark`. -/
def pieces (mark : Char) : List Char → List (List Char)
  | [] => [[]]
  | c :: cs =>
    if c = mark then [] :: pieces mark cs
    else
      match pieces mark cs with
      | piece :: more => (c :: piece) :: more
      | [] => [[c]]

/-- The lines of a text whose current line so far is `line`, newest character first. -/
def linesFrom (line : List Char) : List Char → List (List Char)
  | [] => if line.isEmpty then [] else [line.reverse]
  | c :: cs =>
    if c = '\n' then
      (match line with
        | '\r' :: start => start.reverse
        | _ => line.reverse) :: linesFrom [] cs
    else linesFrom (c :: line) cs

/-- The lines of a text. A line ends at a line feed, a carriage return just before it belongs to
the line end, and a text that ends in a line feed has no further line after it. -/
def lines (cs : List Char) : List (List Char) :=
  linesFrom [] cs

/-- Length of a text in UTF-8 bytes. -/
def byteLength : List Char → Nat
  | [] => 0
  | c :: cs => c.utf8Size + byteLength cs

/-- The text with every `old` replaced by `new`. -/
def replaceChar (old new : Char) (s : String) : String :=
  String.ofList (s.toList.map fun c => if c = old then new else c)

/-- A text and its continuation add up in bytes. -/
theorem byteLength_append (cs ds : List Char) :
    byteLength (cs ++ ds) = byteLength cs + byteLength ds := by
  induction cs with
  | nil => simp [byteLength]
  | cons c cs ih => simp [byteLength, ih, Nat.add_assoc]

/-- A cut at the last mark loses nothing but the mark, which does not occur after the cut. -/
theorem cutAtLast?_eq_some {mark : Char} {cs before rest : List Char}
    (h : cutAtLast? mark cs = some (before, rest)) :
    cs = before ++ mark :: rest ∧ mark ∉ rest := by
  induction cs generalizing before with
  | nil => simp [cutAtLast?] at h
  | cons c cs ih =>
    simp only [cutAtLast?] at h
    split at h
    · next before' rest' hcut =>
      simp only [Option.some.injEq, Prod.mk.injEq] at h
      obtain ⟨rfl, rfl⟩ := h
      obtain ⟨rfl, hrest⟩ := ih hcut
      exact ⟨rfl, hrest⟩
    · next hcut =>
      split at h
      · next hc =>
        simp only [Option.some.injEq, Prod.mk.injEq] at h
        obtain ⟨rfl, rfl⟩ := h
        refine ⟨by simp [hc], ?_⟩
        intro hmem
        clear ih
        induction cs with
        | nil => simp at hmem
        | cons d ds ihd =>
          simp only [cutAtLast?] at hcut
          split at hcut
          · simp at hcut
          · next htail =>
            split at hcut
            · simp at hcut
            · next hd =>
              rcases List.mem_cons.1 hmem with rfl | hmem
              · exact hd rfl
              · exact ihd htail hmem
      · simp at h

end BrightDoc.Text
