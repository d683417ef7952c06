import BrightDoc.Text.Space

/-!
Caseless keywords. A keyword is written in small ASCII letters and found in a text in any letter
case; the long s and the kelvin sign count as further spellings of `s` and `k`.
-/

namespace BrightDoc.Text

/-- The small letter that `c` is a spelling of. -/
def foldChar (c : Char) : Char :=
  if c = '\u017f' then 's' else if c = '\u212a' then 'k' else c.toLower

/-- The start of a text that spells `word`, and the rest of the text. -/
def spelling? : List Char → List Char → Option (List Char × List Char)
  | [], cs => some ([], cs)
  | _ :: _, [] => none
  | w :: ws, c :: cs =>
    if foldChar c = w then (spelling? ws cs).map fun (found, rest) => (c :: found, rest) else none

/-- The rest of a text that starts with some spelling of `word`. -/
def afterKeyword? (word : String) (cs : List Char) : Option (List Char) :=
  (spelling? word.toList cs).map (·.2)

/-- The first of `words` that starts the text, as it is spelled there, and the rest. -/
def firstSpelling? (words : List String) (cs : List Char) : Option (List Char × List Char) :=
  words.findSome? fun word => spelling? word.toList cs

/-- Whether the whole text is a spelling of `word`. -/
def isSpelling (word : String) (cs : List Char) : Bool :=
  afterKeyword? word cs == some []

/-- A spelling and the rest make up the text. -/
theorem spelling?_append {word cs found rest : List Char}
    (h : spelling? word cs = some (found, rest)) : cs = found ++ rest := by
  induction word generalizing cs found with
  | nil => simp_all [spelling?]
  | cons w ws ih =>
    cases cs with
    | nil => simp [spelling?] at h
    | cons c cs =>
      simp only [spelling?] at h
      split at h
      · obtain ⟨⟨found', rest'⟩, htail, heq⟩ := Option.map_eq_some_iff.1 h
        simp only [Prod.mk.injEq] at heq
        obtain ⟨rfl, rfl⟩ := heq
        simp [ih htail]
      · simp at h

/-- A spelling has as many characters as its keyword. -/
theorem length_of_spelling? {word cs found rest : List Char}
    (h : spelling? word cs = some (found, rest)) : found.length = word.length := by
  induction word generalizing cs found with
  | nil => simp_all [spelling?]
  | cons w ws ih =>
    cases cs with
    | nil => simp [spelling?] at h
    | cons c cs =>
      simp only [spelling?] at h
      split at h
      · obtain ⟨⟨found', rest'⟩, htail, heq⟩ := Option.map_eq_some_iff.1 h
        simp only [Prod.mk.injEq] at heq
        obtain ⟨rfl, rfl⟩ := heq
        simp [ih htail]
      · simp at h

end BrightDoc.Text
