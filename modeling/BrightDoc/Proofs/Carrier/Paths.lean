import BrightDoc.Carrier.Declared
import BrightDoc.Proofs.Line.Recognised
import BrightDoc.Proofs.Text.Pieces

/-! # Dotted paths

The beginnings of a dotted path, and how they are compared. In the names of namespaces every character
has a small form of its own, and only a dot has a dot for it, so the segments of a path stay apart in
lowercase. -/

namespace BrightDoc.Text

/-- The dotted beginnings of a path, from its first segment to the whole path. -/
def dottedPrefixes (path : String) : List String :=
  (pieces '.' path.toList).inits.tail.map fun segments =>
    String.ofList (['.'].intercalate segments)

theorem toList_dotted (path segment : String) :
    (path ++ "." ++ segment).toList = path.toList ++ '.' :: segment.toList := by
  simp

theorem pieces_dotted {segment : String} (dotless : '.' ∉ segment.toList) (path : String) :
    pieces '.' (path ++ "." ++ segment).toList = pieces '.' path.toList ++ [segment.toList] := by
  rw [toList_dotted, pieces_append_mark, pieces_of_notMem dotless]

theorem dottedPrefixes_of_dotless {path : String} (dotless : '.' ∉ path.toList) :
    dottedPrefixes path = [path] := by
  simp [dottedPrefixes, pieces_of_notMem dotless]

/-- One more segment gives one more beginning. -/
theorem dottedPrefixes_append {segment : String} (dotless : '.' ∉ segment.toList) (path : String) :
    dottedPrefixes (path ++ "." ++ segment) = dottedPrefixes path ++ [path ++ "." ++ segment] := by
  have whole := intercalate_pieces '.' (path ++ "." ++ segment).toList
  rw [pieces_dotted dotless] at whole
  have one : [segment.toList].inits.tail = [[segment.toList]] := rfl
  have some : (pieces '.' path.toList).inits ≠ [] := by
    intro empty
    simpa [empty] using List.length_inits (pieces '.' path.toList)
  rw [dottedPrefixes, pieces_dotted dotless, List.inits_append, one, List.tail_append_of_ne_nil some,
    List.map_append, List.map_singleton, List.map_singleton, whole, String.ofList_toList]
  rfl

theorem self_mem_dottedPrefixes (path : String) : path ∈ dottedPrefixes path := by
  have whole := intercalate_pieces '.' path.toList
  obtain ⟨piece, more, found⟩ := List.exists_cons_of_ne_nil (pieces_ne_nil '.' path.toList)
  rw [found] at whole
  rw [dottedPrefixes, found, List.inits_cons, List.tail_cons, List.map_map, List.mem_map]
  refine ⟨more, (List.mem_inits more more).mpr (List.prefix_refl more), ?_⟩
  rw [Function.comp_apply, whole, String.ofList_toList]

/-- A path with a dot has a last segment. -/
theorem exists_segment {path : String} (dotted : '.' ∈ path.toList) :
    ∃ outer segment : String, path = outer ++ "." ++ segment ∧ '.' ∉ segment.toList := by
  obtain ⟨last, rest, split, dotless⟩ := List.eq_append_cons_of_mem (List.mem_reverse.mpr dotted)
  refine ⟨String.ofList rest.reverse, String.ofList last.reverse, ?_, by simpa using dotless⟩
  apply String.toList_injective
  rw [toList_dotted, ← List.reverse_reverse path.toList, split]
  simp

/-- A path has one last segment. -/
theorem outer_unique {outer outer' segment segment' : String} (dotless : '.' ∉ segment.toList)
    (dotless' : '.' ∉ segment'.toList) (same : outer ++ "." ++ segment = outer' ++ "." ++ segment') :
    outer = outer' := by
  have split : pieces '.' outer.toList ++ [segment.toList] =
      pieces '.' outer'.toList ++ [segment'.toList] := by
    rw [← pieces_dotted dotless, ← pieces_dotted dotless', same]
  have start := congrArg ['.'].intercalate (List.append_inj' split rfl).1
  rw [intercalate_pieces, intercalate_pieces] at start
  exact String.toList_injective start

/-- The small form of a character that has one of its own. -/
def smallForm (c : Char) : Char :=
  if c.toNat < 128 then c.toLower else lowerByRun c

open BrightDoc.Line (isTokenTail isCaselessLetter_range)

theorem isTokenTail_range {c : Char} (tail : isTokenTail c = true) :
    c.toNat < 128 ∨ c = '\u017f' ∨ c = '\u212a' := by
  simp only [isTokenTail, Bool.or_eq_true, beq_iff_eq] at tail
  rcases tail with (letter | digit) | rfl
  · rcases isCaselessLetter_range letter with upper | lower | low | long | kelvin
    · omega
    · omega
    · omega
    · exact Or.inr (Or.inl (Char.toNat_inj.mp long))
    · exact Or.inr (Or.inr (Char.toNat_inj.mp kelvin))
  · have high : c.toNat ≤ 57 := of_decide_eq_true (Bool.and_eq_true_iff.mp digit).2
    omega
  · decide

theorem lowerAt_of_isTokenTail {c : Char} (tail : isTokenTail c = true) (before after : List Char) :
    lowerAt before c after = [smallForm c] := by
  rcases isTokenTail_range tail with ascii | rfl | rfl
  · simp only [lowerAt, smallForm, ascii, if_true]
  · rfl
  · rfl

theorem smallForm_eq_dot_iff {c : Char} (tail : isTokenTail c = true) :
    smallForm c = '.' ↔ c = '.' := by
  rcases isTokenTail_range tail with ascii | rfl | rfl
  · have all : ∀ n < 128, (Char.ofNat n).toLower = '.' ↔ Char.ofNat n = '.' := by decide
    have here := all c.toNat ascii
    rw [Char.ofNat_toNat] at here
    rw [smallForm, if_pos ascii]
    exact here
  · decide +kernel
  · decide +kernel

end BrightDoc.Text

namespace BrightDoc

open BrightDoc.Text BrightDoc.Line

/-- The text is made of the characters of dotted names. -/
def TokenText (s : String) : Prop :=
  ∀ c ∈ s.toList, isTokenTail c = true

theorem tokenText_dotted {path segment : String} :
    TokenText (path ++ "." ++ segment) ↔ TokenText path ∧ TokenText segment := by
  have dot : isTokenTail '.' = true := by decide
  simp only [TokenText, toList_dotted, List.forall_mem_append, List.forall_mem_cons, dot, true_and]

namespace Declared

/-- What a name of a namespace is compared by is found character by character. -/
theorem toList_namespaceKey {path : String} (token : TokenText path) :
    (namespaceKey path).toList = path.toList.map smallForm := by
  have each : ∀ (cs before : List Char), (∀ c ∈ cs, isTokenTail c = true) →
      lowercaseFrom before cs = cs.map smallForm := by
    intro cs
    induction cs with
    | nil => simp [lowercaseFrom]
    | cons c cs ih =>
      intro before tails
      rw [List.forall_mem_cons] at tails
      rw [lowercaseFrom, lowerAt_of_isTokenTail tails.1, ih (c :: before) tails.2]
      rfl
  rw [namespaceKey, lowercase, String.toList_ofList, each _ _ token]

theorem namespaceKey_dotted {path segment : String} (token : TokenText path)
    (tokenSegment : TokenText segment) :
    namespaceKey (path ++ "." ++ segment) = namespaceKey path ++ "." ++ namespaceKey segment := by
  have dot : smallForm '.' = '.' := rfl
  apply String.toList_injective
  rw [toList_dotted, toList_namespaceKey (tokenText_dotted.mpr ⟨token, tokenSegment⟩), toList_dotted,
    toList_namespaceKey token, toList_namespaceKey tokenSegment, List.map_append, List.map_cons, dot]

theorem dotless_namespaceKey {segment : String} (token : TokenText segment)
    (dotless : '.' ∉ segment.toList) : '.' ∉ (namespaceKey segment).toList := by
  rw [toList_namespaceKey token]
  intro dotted
  obtain ⟨c, member, same⟩ := List.mem_map.mp dotted
  rw [(smallForm_eq_dot_iff (token c member)).mp same] at member
  exact dotless member

end Declared

end BrightDoc
