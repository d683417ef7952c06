import BrightDoc.Doc.Tag
import Mathlib.Data.List.Basic

/-! # Lines that document parameters

A line documents at most one parameter, the one whose key its tag has. So looking parameters up one
after the other, each in what the ones before it have left, comes to looking all of them up in the whole
comment: only a parameter with the key of an earlier one is left without a line. Main statement: the order
in which parameters with keys of their own are looked up does not matter. -/

namespace BrightDoc.Doc

/-- The key of the parameter that a line documents. -/
def documentedKey? (line : String) : Option String :=
  (parameterTag? line).map fun tag => nameKey tag.name

/-- Whether a line documents none of the parameters with the given keys. -/
def documentsNone (keys : List String) (line : String) : Bool :=
  (documentedKey? line).all fun key => !keys.contains key

/-- What the last line that documents the parameter with the given key says about it. -/
def lastDoc (lines : List String) (key : String) : TagDoc :=
  (lines.filterMap (paramDoc? key)).getLast?.getD {}

/-- What is said about the parameter with the given key, after the parameters with earlier keys have
taken their lines. -/
def docAfter (earlier : List String) (lines : List String) (key : String) : TagDoc :=
  if key ∈ earlier then {} else lastDoc lines key

/-- What the lines say about each of the parameters with the given keys. -/
def docsOf (lines keys : List String) : List TagDoc :=
  keys.mapIdx fun i key => docAfter (keys.take i) lines key

variable {key line : String}

theorem isSome_paramDoc?_iff : (paramDoc? key line).isSome = true ↔ documentedKey? line = some key := by
  rw [paramDoc?, documentedKey?]
  cases parameterTag? line with
  | none => simp
  | some tag =>
    dsimp only
    split
    · simp_all
    · simp_all

theorem documentsNone_nil : documentsNone [] line = true := by
  simp [documentsNone]

/-- Lines are taken out for one key after the other. -/
theorem documentsNone_append_singleton (keys : List String) :
    documentsNone (keys ++ [key]) line = ((paramDoc? key line).isNone && documentsNone keys line) := by
  have own : (paramDoc? key line).isNone = !decide (documentedKey? line = some key) := by
    rw [← Option.not_isSome, Bool.not_inj_iff, Bool.eq_iff_iff, isSome_paramDoc?_iff, decide_eq_true_iff]
  rw [own, documentsNone, documentsNone]
  cases documentedKey? line with
  | none => rfl
  | some other => simp [Bool.and_comm]

/-- A parameter has a line of its own left unless an earlier one has the same key. -/
theorem lastDoc_filter (earlier lines : List String) :
    lastDoc (lines.filter (documentsNone earlier)) key = docAfter earlier lines key := by
  have ownKey : ∀ {line : String}, (paramDoc? key line).isSome = true →
      documentsNone earlier line = !earlier.contains key := by
    intro line documented
    rw [documentsNone, isSome_paramDoc?_iff.mp documented]
    rfl
  have left : (lines.filter (documentsNone earlier)).filterMap (paramDoc? key) =
      if key ∈ earlier then [] else lines.filterMap (paramDoc? key) := by
    induction lines with
    | nil => simp
    | cons line more ih =>
      rw [List.filter_cons]
      cases documented : paramDoc? key line with
      | none =>
        rw [List.filterMap_cons_none documented]
        split
        · rw [List.filterMap_cons_none documented, ih]
        · exact ih
      | some doc =>
        rw [ownKey (by rw [documented]; rfl)]
        by_cases taken : key ∈ earlier
        · simpa [taken] using ih
        · simpa [taken, List.filterMap_cons_some documented] using ih
  rw [lastDoc, left, docAfter, lastDoc]
  split
  · rfl
  · rfl

/-- What looking up a parameter does, after the parameters with earlier keys have taken their lines. -/
theorem takeParam_filter (earlier lines : List String) (name : String) :
    takeParam name (lines.filter (documentsNone earlier)) =
      (lines.filter (documentsNone (earlier ++ [nameKey name.toList])),
        docAfter earlier lines (nameKey name.toList)) := by
  refine Prod.ext ?_ (lastDoc_filter earlier lines)
  rw [takeParam, List.filter_filter]
  exact List.filter_congr fun line _ => (documentsNone_append_singleton earlier).symm

/-- A line that documents a parameter is taken out when the parameter is looked up. -/
theorem takeParam_lines_of_documented {name : String} {doc : TagDoc}
    (documented : paramDoc? (nameKey name.toList) line = some doc) (before after : List String) :
    (takeParam name (before ++ line :: after)).1 = (takeParam name (before ++ after)).1 := by
  simp [takeParam, documented]

/-- The last line that documents a parameter has the say. -/
theorem takeParam_doc_of_last {name : String} {doc : TagDoc}
    (documented : paramDoc? (nameKey name.toList) line = some doc) (before : List String)
    {after : List String} (last : ∀ other ∈ after, paramDoc? (nameKey name.toList) other = none) :
    (takeParam name (before ++ line :: after)).2 = doc := by
  have none : after.filterMap (paramDoc? (nameKey name.toList)) = [] :=
    List.filterMap_eq_nil_iff.mpr last
  simp [takeParam, documented, none]

section Turns

/-- The parameters with the given names are looked up in turn, each in the lines that the ones before it
have left: the lines that are left in the end, and what is said about each name. -/
def takeInTurn (lines : List String) : List String → List String × List (String × TagDoc)
  | [] => (lines, [])
  | name :: more =>
    let (left, doc) := takeParam name lines
    let (rest, docs) := takeInTurn left more
    (rest, (name, doc) :: docs)

/-- What the names are compared by. -/
def keysOf (names : List String) : List String :=
  names.map fun name => nameKey name.toList

/-- Looking up names with keys of their own, after the parameters with earlier keys have taken their
lines. -/
theorem takeInTurn_filter (lines earlier names : List String)
    (apart : (earlier ++ keysOf names).Nodup) :
    takeInTurn (lines.filter (documentsNone earlier)) names =
      (lines.filter (documentsNone (earlier ++ keysOf names)),
        names.map fun name => (name, lastDoc lines (nameKey name.toList))) := by
  induction names generalizing earlier with
  | nil => simp [takeInTurn, keysOf]
  | cons name more ih =>
    have keys : earlier ++ keysOf (name :: more) =
        earlier ++ [nameKey name.toList] ++ keysOf more := by
      simp [keysOf]
    rw [keys] at apart ⊢
    have untaken : nameKey name.toList ∉ earlier := by
      intro taken
      have distinct := (List.nodup_append.mp (List.nodup_append.mp apart).1).2.2
      exact distinct _ taken _ List.mem_cons_self rfl
    rw [takeInTurn, takeParam_filter]
    dsimp only
    rw [ih _ apart, docAfter, if_neg untaken, List.map_cons]

theorem takeInTurn_eq {lines names : List String} (apart : (keysOf names).Nodup) :
    takeInTurn lines names =
      (lines.filter (documentsNone (keysOf names)),
        names.map fun name => (name, lastDoc lines (nameKey name.toList))) := by
  have all : lines.filter (documentsNone []) = lines :=
    List.filter_eq_self.mpr fun _ _ => documentsNone_nil
  have taken := takeInTurn_filter lines [] names apart
  rwa [all] at taken

/-- Which lines stay does not depend on the order of the keys. -/
theorem documentsNone_of_perm {keys other : List String} (reordered : keys.Perm other) :
    documentsNone keys = documentsNone other := by
  funext line
  have same : ∀ key, keys.contains key = other.contains key := by
    intro key
    rw [Bool.eq_iff_iff, List.contains_iff_mem, List.contains_iff_mem]
    exact reordered.mem_iff
  simp only [documentsNone, same]

/-- Parameters of different names are looked up in any order: the same lines are left, those that
document none of them, and the same is said about each name. -/
theorem lookups_commute (lines names other : List String)
    (apart : (keysOf names).Nodup) (reordered : names.Perm other) :
    (takeInTurn lines other).1 = (takeInTurn lines names).1 ∧
    (takeInTurn lines other).2.Perm (takeInTurn lines names).2 ∧
    (takeInTurn lines names).1 = lines.filter (documentsNone (keysOf names)) ∧
    (takeInTurn lines names).2 =
      names.map fun name => (name, lastDoc lines (nameKey name.toList)) := by
  have keys : (keysOf names).Perm (keysOf other) := reordered.map _
  rw [takeInTurn_eq apart, takeInTurn_eq (keys.nodup_iff.mp apart), documentsNone_of_perm keys.symm]
  exact ⟨rfl, (reordered.map _).symm, rfl, rfl⟩

/-- Names that differ in a designator only, and a line with tags of both. -/
theorem designated_lookups_commute :
    let lines := ["/**", " * @param {integer} N% - one", " * @param n @param n% two", " * @param x y"]
    (keysOf ["n%", " N "]).Nodup ∧ ["n%", " N "].Perm [" N ", "n%"] ∧
      (takeInTurn lines [" N ", "n%"]).1 = (takeInTurn lines ["n%", " N "]).1 ∧
      (takeInTurn lines ["n%", " N "]).1 = ["/**", " * @param x y"] := by
  intro lines
  have apart : (keysOf ["n%", " N "]).Nodup := by decide +kernel
  have reordered : ["n%", " N "].Perm [" N ", "n%"] := .swap _ _ _
  obtain ⟨same, -, left, -⟩ := lookups_commute lines ["n%", " N "] [" N ", "n%"] apart reordered
  exact ⟨apart, reordered, same, left.trans (by decide +kernel)⟩

end Turns

end BrightDoc.Doc
