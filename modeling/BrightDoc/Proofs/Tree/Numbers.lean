import BrightDoc.Reader.Step
import Mathlib.Data.List.Basic
import Mathlib.Data.Nat.Digits.Defs

/-! # The values of enum members by their places

The reader gives values to the members of an enum one after the other, with a number for the next member
that it keeps. What comes of it is told by the written values alone: a member without one is counted on
from the value written nearest before it, if that is the text of a whole number. -/

namespace BrightDoc

namespace EnumValue

section Texts

/-- The number with the given decimal digits, the most significant first. -/
def decimal (digits : List Char) : Nat :=
  Nat.ofDigits 10 (digits.reverse.map fun c => c.toNat - '0'.toNat)

/-- The numbers that texts of decimal digits denote, with an optional sign. -/
inductive Denotes : List Char → Int → Prop where
  | unsigned {digits : List Char} (valid : LiteralKind.isDigits digits = true) :
      Denotes digits (decimal digits)
  | plus {digits : List Char} (valid : LiteralKind.isDigits digits = true) :
      Denotes ('+' :: digits) (decimal digits)
  | minus {digits : List Char} (valid : LiteralKind.isDigits digits = true) :
      Denotes ('-' :: digits) (-decimal digits)

theorem digitsFrom_cons (number : Nat) (c : Char) (more : List Char) :
    digitsFrom number (c :: more) = digitsFrom (number * 10 + (c.toNat - '0'.toNat)) more := by
  rfl

theorem digitsFrom_eq (digits : List Char) :
    ∀ number, digitsFrom number digits = number * 10 ^ digits.length + decimal digits := by
  induction digits with
  | nil => exact fun number => (Nat.mul_one number).symm
  | cons c more ih =>
    intro number
    have weights : decimal (c :: more) =
        decimal more + 10 ^ more.length * (c.toNat - '0'.toNat) := by
      rw [decimal, List.reverse_cons, List.map_append, Nat.ofDigits_append, List.length_map,
        List.length_reverse, List.map_singleton, Nat.ofDigits_singleton, decimal]
    rw [digitsFrom_cons, ih, weights, List.length_cons, Nat.pow_succ]
    ring

theorem natural?_eq (digits : List Char) :
    natural? digits = if LiteralKind.isDigits digits then some (decimal digits) else none := by
  rw [natural?, digitsFrom_eq, Nat.zero_mul, Nat.zero_add]

/-- Digits are read as a number, whatever their sign makes of it. -/
theorem signed_eq_some_iff {digits : List Char} {number : Int} (sign : Int → Int) :
    (natural? digits >>= fun n => pure (n : Int)).map sign = some number ↔
      LiteralKind.isDigits digits = true ∧ sign (decimal digits) = number := by
  rw [natural?_eq]
  by_cases valid : LiteralKind.isDigits digits = true <;> simp [valid]

/-- The number that a text denotes is read, if it is within the range of 64-bit words. -/
theorem whole?_eq_some_iff {text : List Char} {number : Int} :
    whole? text = some number ↔
      Denotes text number ∧ -9223372036854775808 ≤ number ∧ number ≤ 9223372036854775807 := by
  unfold whole?
  simp only [Option.filter_eq_some_iff, Bool.and_eq_true, decide_eq_true_eq]
  apply and_congr_left
  intro _
  constructor
  · intro read
    split at read
    all_goals
      obtain ⟨valid, rfl⟩ := (signed_eq_some_iff _).mp read
    · exact .plus valid
    · exact .minus valid
    · exact .unsigned valid
  · intro denotes
    cases denotes with
    | plus valid => exact (signed_eq_some_iff _).mpr ⟨valid, rfl⟩
    | minus valid => exact (signed_eq_some_iff _).mpr ⟨valid, rfl⟩
    | unsigned valid =>
      -- Digits do not start with a sign.
      split
      · cases valid
      · cases valid
      · exact (signed_eq_some_iff _).mpr ⟨valid, rfl⟩

end Texts

section Words

/-- A number within the range of 64-bit words is held as it is. -/
theorem word_eq_self {number : Int} (least : -9223372036854775808 ≤ number)
    (greatest : number ≤ 9223372036854775807) : word number = number :=
  Int.bmod_eq_of_le_mul_two (by omega) (by omega)

/-- Counting on in words is counting on, and then taking the word. -/
theorem word_word_add_one (number : Int) : word (word number + 1) = word (number + 1) :=
  Int.bmod_add_bmod

end Words

/-- The value written nearest before the member with the number `i`, and the number of the member it is
written for. -/
def nearest? (written : List (Option (List Char))) (i : Nat) : Option (Nat × List Char) :=
  (List.range i).reverse.findSome? fun j => written[j]?.join.map fun text => (j, text)

/-- The value of the member with the number `i`: the one written for it, else the one counted on from
the nearest before it, in 64-bit words. Without any before it members are counted from zero, and after a
value that is no whole number there is nothing to count on from. -/
def valueAt (written : List (Option (List Char))) (i : Nat) : String :=
  match written[i]?.join, nearest? written i with
  | some text, _ => String.ofList text
  | none, some (j, text) =>
    match whole? text with
    | some number => toString (word (number + ((i : Int) - j)))
    | none => placeholder
  | none, none => toString (word i)

/-- Whether the value of the member with the number `i` is left open. -/
def isOpenAt (written : List (Option (List Char))) (i : Nat) : Bool :=
  match written[i]?.join, nearest? written i with
  | none, some (_, text) => (whole? text).isNone
  | _, _ => false

/-- The number that the member with the number `i` would get, if there is one. -/
def numberAt? (written : List (Option (List Char))) (i : Nat) : Option Int :=
  match nearest? written i with
  | some (j, text) => (whole? text).map fun number => word (number + ((i : Int) - j))
  | none => some (word i)

variable {written : List (Option (List Char))}

theorem nearest?_succ (i : Nat) :
    nearest? written (i + 1) =
      (written[i]?.join.map fun text => (i, text)).or (nearest? written i) := by
  rw [nearest?, List.range_succ, List.reverse_append, List.reverse_singleton, List.singleton_append,
    List.findSome?_cons, nearest?]
  cases written[i]?.join with
  | none => rfl
  | some text => rfl

/-- The values after a member do not matter for what is before it. -/
theorem nearest?_append {i : Nat} (le : i ≤ written.length) (more : List (Option (List Char))) :
    nearest? (written ++ more) i = nearest? written i := by
  induction i with
  | zero => rfl
  | succ i ih =>
    rw [nearest?_succ, nearest?_succ, ih (Nat.le_of_succ_le le), List.getElem?_append_left le]

/-- The reader counts on from one member to the next. -/
theorem numberAt?_succ (written : List (Option (List Char))) (i : Nat) :
    numberAt? written (i + 1) = (assign written[i]?.join (numberAt? written i)).next := by
  rw [numberAt?, nearest?_succ]
  cases written[i]?.join with
  | some text =>
    have one : ((i + 1 : Nat) : Int) - i = 1 := by omega
    simp only [Option.map_some, Option.some_or, one]
    rfl
  | none =>
    rw [Option.map_none, Option.none_or, numberAt?]
    cases nearest? written i with
    | none => exact congrArg some (word_word_add_one i).symm
    | some near =>
      obtain ⟨j, text⟩ := near
      dsimp only
      cases whole? text with
      | none => rfl
      | some number =>
        have further : number + (((i + 1 : Nat) : Int) - j) = number + ((i : Int) - j) + 1 := by omega
        rw [Option.map_some, Option.map_some, further, ← word_word_add_one]
        rfl

/-- The member gets its value from the number that is next. -/
theorem assign_numberAt? (written : List (Option (List Char))) (i : Nat) :
    (assign written[i]?.join (numberAt? written i)).value = valueAt written i ∧
      (assign written[i]?.join (numberAt? written i)).isOpen = isOpenAt written i := by
  rw [valueAt, isOpenAt, numberAt?]
  cases written[i]?.join with
  | some text => exact ⟨rfl, rfl⟩
  | none =>
    cases nearest? written i with
    | none => exact ⟨rfl, rfl⟩
    | some near =>
      obtain ⟨j, text⟩ := near
      dsimp only
      cases whole? text with
      | none => exact ⟨rfl, rfl⟩
      | some number => exact ⟨rfl, rfl⟩

theorem valueAt_append {i : Nat} (lt : i < written.length) (more : List (Option (List Char))) :
    valueAt (written ++ more) i = valueAt written i := by
  rw [valueAt, valueAt, List.getElem?_append_left lt, nearest?_append (Nat.le_of_lt lt)]

theorem isOpenAt_append {i : Nat} (lt : i < written.length) (more : List (Option (List Char))) :
    isOpenAt (written ++ more) i = isOpenAt written i := by
  rw [isOpenAt, isOpenAt, List.getElem?_append_left lt, nearest?_append (Nat.le_of_lt lt)]

theorem numberAt?_append {i : Nat} (le : i ≤ written.length) (more : List (Option (List Char))) :
    numberAt? (written ++ more) i = numberAt? written i := by
  rw [numberAt?, numberAt?, nearest?_append le]

end EnumValue

section Lines

/-- The line with the given number, unless it is blank or a comment line. -/
def codeLineAt? (lines : List (List Char)) (index : Nat) : Option SourceLine :=
  lines[index]?.bind fun text =>
    if Line.isComment text || Line.isBlank text then none else some ⟨index, text⟩

/-- The lines from the line `first` on and before the line `last` that are neither blank nor comment
lines. -/
def codeLinesIn (lines : List (List Char)) (first last : Nat) : List SourceLine :=
  (List.range' first (last - first)).filterMap (codeLineAt? lines)

variable {lines : List (List Char)} {text : List Char} {index : Nat}

theorem codeLinesIn_self (lines : List (List Char)) (line : Nat) : codeLinesIn lines line line = [] := by
  simp [codeLinesIn]

theorem codeLinesIn_succ {first last : Nat} (le : first ≤ last) :
    codeLinesIn lines first (last + 1) =
      codeLinesIn lines first last ++ (codeLineAt? lines last).toList := by
  have longer : last + 1 - first = last - first + 1 := by omega
  have place : first + (last - first) = last := by omega
  rw [codeLinesIn, longer, List.range'_1_concat, List.filterMap_append, place, codeLinesIn]
  congr 1

theorem codeLineAt?_of_empty (here : lines[index]? = some text)
    (empty : (Line.isComment text || Line.isBlank text) = true) : codeLineAt? lines index = none := by
  rw [codeLineAt?, here, Option.bind_some, if_pos empty]

theorem codeLineAt?_of_code (here : lines[index]? = some text)
    (code : (Line.isComment text || Line.isBlank text) = false) :
    codeLineAt? lines index = some ⟨index, text⟩ := by
  rw [codeLineAt?, here, Option.bind_some, code]
  rfl

end Lines

/-- A member as a line of an enum writes it. -/
structure WrittenMember where
  line : SourceLine
  name : List Char
  value : Option (List Char)

namespace WrittenMember

/-- The member that a line writes. -/
def on? (l : SourceLine) : Option WrittenMember :=
  (Line.enumMember? l.code).map fun (name, value) => { line := l, name, value }

/-- The member with its value, where `next` is the number for a member without one. -/
def memberFrom (next : Option Int) (m : WrittenMember) : EnumMember :=
  { name := String.ofList m.name
    value := (EnumValue.assign m.value next).value
    range := m.line.codeRange }

/-- The name and line number of the member, if its value is left open there. -/
def openFrom (next : Option Int) (m : WrittenMember) : List (String × Nat) :=
  if (EnumValue.assign m.value next).isOpen then [(String.ofList m.name, m.line.number)] else []

/-- The values that are written for the members. -/
def values (written : List WrittenMember) : List (Option (List Char)) :=
  written.map WrittenMember.value

/-- The member with the number `i`, whose value is told by the values written for all of them. -/
def numbered (written : List WrittenMember) (i : Nat) (m : WrittenMember) : EnumMember :=
  { name := String.ofList m.name
    value := EnumValue.valueAt (values written) i
    range := m.line.codeRange }

/-- The members that are written, each with its value. -/
def members (written : List WrittenMember) : List EnumMember :=
  written.mapIdx (numbered written)

/-- The names and line numbers of the members whose values are left open. -/
def opens (written : List WrittenMember) : List (String × Nat) :=
  (written.zipIdx.filter fun found => EnumValue.isOpenAt (values written) found.2).map fun found =>
    (String.ofList found.1.name, found.1.line.number)

/-- The number that comes after the members, if there is one. -/
def next (written : List WrittenMember) : Option Int :=
  EnumValue.numberAt? (values written) written.length

variable (written : List WrittenMember) (m : WrittenMember)

theorem length_values : (values written).length = written.length := by
  simp [values]

theorem values_append : values (written ++ [m]) = values written ++ [m.value] := by
  simp [values]

/-- What one more member gets, by the values before it. -/
theorem assign_next :
    EnumValue.assign m.value (next written) =
      { value := EnumValue.valueAt (values (written ++ [m])) written.length
        next := next (written ++ [m])
        isOpen := EnumValue.isOpenAt (values (written ++ [m])) written.length } := by
  have own : (values (written ++ [m]))[written.length]?.join = m.value := by
    rw [values_append, ← length_values, List.getElem?_concat_length, Option.join_some]
  have before : EnumValue.numberAt? (values (written ++ [m])) written.length = next written := by
    rw [values_append, EnumValue.numberAt?_append (Nat.le_of_eq (length_values written).symm), next]
  have value := EnumValue.assign_numberAt? (values (written ++ [m])) written.length
  have after := EnumValue.numberAt?_succ (values (written ++ [m])) written.length
  rw [own, before] at value after
  have last : next (written ++ [m]) = (EnumValue.assign m.value (next written)).next := by
    rw [← after, next, List.length_append, List.length_singleton]
  rw [← value.1, ← value.2, last]

theorem members_append :
    members (written ++ [m]) = members written ++ [m.memberFrom (next written)] := by
  have earlier : written.mapIdx (numbered (written ++ [m])) = members written := by
    rw [members, List.mapIdx_eq_mapIdx_iff]
    intro i inside
    rw [← length_values] at inside
    rw [numbered, numbered, values_append, EnumValue.valueAt_append inside]
  rw [members, List.mapIdx_append, earlier, memberFrom, assign_next]
  simp [numbered]

theorem opens_append :
    opens (written ++ [m]) = opens written ++ m.openFrom (next written) := by
  have earlier :
      (written.zipIdx.filter fun found => EnumValue.isOpenAt (values (written ++ [m])) found.2) =
        written.zipIdx.filter fun found => EnumValue.isOpenAt (values written) found.2 := by
    apply List.filter_congr
    intro found inside
    have before := List.snd_lt_of_mem_zipIdx inside
    rw [Nat.add_zero, ← length_values] at before
    rw [values_append, EnumValue.isOpenAt_append before]
  rw [opens, List.zipIdx_append, List.filter_append, List.map_append, earlier, openFrom, assign_next,
    ← opens]
  simp only [Nat.zero_add, List.zipIdx_singleton, List.filter_singleton]
  cases EnumValue.isOpenAt (values (written ++ [m])) written.length <;> rfl

end WrittenMember

/-- The members written on the lines from the line `first` on and before the line `last`. -/
def membersIn (lines : List (List Char)) (first last : Nat) : List WrittenMember :=
  (codeLinesIn lines first last).filterMap WrittenMember.on?

section Members

variable {lines : List (List Char)} {l : SourceLine} {m : WrittenMember} {first last : Nat}

theorem membersIn_self (lines : List (List Char)) (line : Nat) : membersIn lines line line = [] := by
  rw [membersIn, codeLinesIn_self, List.filterMap_nil]

theorem membersIn_succ_of_empty (le : first ≤ last) (empty : codeLineAt? lines last = none) :
    membersIn lines first (last + 1) = membersIn lines first last := by
  rw [membersIn, codeLinesIn_succ le, empty, Option.toList_none, List.append_nil, membersIn]

theorem membersIn_succ_of_member (le : first ≤ last) (found : codeLineAt? lines last = some l)
    (reads : WrittenMember.on? l = some m) :
    membersIn lines first (last + 1) = membersIn lines first last ++ [m] := by
  rw [membersIn, codeLinesIn_succ le, found, Option.toList_some, List.filterMap_append,
    List.filterMap_cons_some reads, List.filterMap_nil, membersIn]

/-- The values of the members are told by the code of the lines that they are written on. -/
theorem values_membersIn (lines : List (List Char)) (first last : Nat) :
    WrittenMember.values (membersIn lines first last) =
      ((codeLinesIn lines first last).map SourceLine.code).filterMap fun code =>
        (Line.enumMember? code).map Prod.snd := by
  rw [WrittenMember.values, membersIn, List.map_filterMap, List.filterMap_map]
  congr 1
  funext l
  exact Option.map_map _ _ _

theorem WrittenMember.map_value_members (written : List WrittenMember) :
    (members written).map EnumMember.value =
      (List.range (values written).length).map (EnumValue.valueAt (values written)) := by
  apply List.ext_getElem
  · simp [members, length_values]
  · intro i _ _
    simp [members, numbered]

end Members

/-- The member, if the item is one. -/
def EnumItem.member? : EnumItem → Option EnumMember
  | comment _ => none
  | member m => some m

namespace EnumDecl

/-- The members of an enum, in their order. -/
def members (e : EnumDecl) : List EnumMember :=
  e.body.filterMap EnumItem.member?

/-- The lines between the first and the last line of an enum that are neither blank nor comment lines. -/
def codeLines (lines : List (List Char)) (e : EnumDecl) : List SourceLine :=
  codeLinesIn lines (e.placement.range.start.line + 1) e.placement.range.stop.line

/-- The members of an enum as they are written between its first and its last line. -/
def written (lines : List (List Char)) (e : EnumDecl) : List WrittenMember :=
  membersIn lines (e.placement.range.start.line + 1) e.placement.range.stop.line

/-- The names and line numbers of the members of an enum whose values are left open. -/
def opens (lines : List (List Char)) (e : EnumDecl) : List (String × Nat) :=
  WrittenMember.opens (e.written lines)

end EnumDecl

mutual

/-- The enums of a statement. -/
def Statement.enums : Statement → List EnumDecl
  | .enumDecl e => [e]
  | .namespaceDecl _ body => enumsOf body
  | _ => []

/-- The enums among some statements and inside their namespaces, in source order. -/
def enumsOf : List Statement → List EnumDecl
  | [] => []
  | statement :: more => statement.enums ++ enumsOf more

end

theorem enumsOf_append (first second : List Statement) :
    enumsOf (first ++ second) = enumsOf first ++ enumsOf second := by
  induction first with
  | nil => simp [enumsOf]
  | cons statement more ih => simp [enumsOf, ih]

/-- One more statement, where the newest comes first. -/
theorem enumsOf_reverse_cons (statement : Statement) (items : List Statement) :
    enumsOf (statement :: items).reverse = enumsOf items.reverse ++ statement.enums := by
  rw [List.reverse_cons, enumsOf_append, enumsOf, enumsOf, List.append_nil]

end BrightDoc
