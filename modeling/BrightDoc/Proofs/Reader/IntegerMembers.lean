import BrightDoc.Proofs.Line.Literals
import BrightDoc.Proofs.Reader.Matching
import BrightDoc.Proofs.Reader.Numbering

/-! # Integer literals as values of enum members

Two notions of an integer meet in an enum: the literals that imply an integer type, written with decimal
or hexadecimal digits and an optional designator, and the texts that members are counted on from, which
have decimal digits alone. Main statement: after an integer literal a member without a value gets the
next integer exactly if the two notions agree on it. -/

namespace BrightDoc.Text

/-- A text without white space is not trimmed. -/
theorem trim_of_inked {cs : List Char} (inked : ∀ c ∈ cs, isWhite c = false) : trim cs = cs := by
  obtain ⟨before, after, parts, whiteBefore, whiteAfter⟩ := exists_trim cs
  have none : ∀ {white : List Char}, (∀ c ∈ white, c ∈ cs ∧ isWhite c = true) → white = [] := by
    intro white both
    rw [List.eq_nil_iff_forall_not_mem]
    intro c member
    have apart := inked c (both c member).1
    rw [(both c member).2] at apart
    cases apart
  have noBefore := none fun c member => ⟨by rw [parts]; simp [member], whiteBefore c member⟩
  have noAfter := none fun c member => ⟨by rw [parts]; simp [member], whiteAfter c member⟩
  rw [noBefore, noAfter, List.nil_append, List.append_nil] at parts
  exact parts.symm

/-- What is no white space is not trimmed. -/
theorem mem_trim_of_inked {cs : List Char} {c : Char} (inked : isWhite c = false) (member : c ∈ cs) :
    c ∈ trim cs := by
  obtain ⟨before, after, parts, whiteBefore, whiteAfter⟩ := exists_trim cs
  rw [parts, List.mem_append, List.mem_append] at member
  rcases member with (first | inside) | last
  · rw [whiteBefore c first] at inked
    cases inked
  · exact inside
  · rw [whiteAfter c last] at inked
    cases inked

end BrightDoc.Text

namespace BrightDoc

variable {dialect : Dialect}

namespace LiteralKind

/-- The value of a hexadecimal digit. -/
def hexDigitValue (c : Char) : Nat :=
  if c.isDigit then c.toNat - '0'.toNat
  else if 'a' ≤ c then c.toNat - 'a'.toNat + 10
  else c.toNat - 'A'.toNat + 10

/-- The number with the given hexadecimal digits, the most significant first. -/
def hexadecimal (digits : List Char) : Nat :=
  Nat.ofDigits 16 (digits.reverse.map hexDigitValue)

/-- The numbers that decimal digits denote, and hexadecimal ones after `&h`. -/
inductive Numeral : List Char → Nat → Prop where
  | decimal {digits : List Char} (valid : isDigits digits = true) :
      Numeral digits (EnumValue.decimal digits)
  | hexadecimal {mark : Char} {digits : List Char} (marked : mark = 'h' ∨ mark = 'H')
      (nonempty : digits ≠ []) (valid : ∀ c ∈ digits, isHexDigit c = true) :
      Numeral ('&' :: mark :: digits) (hexadecimal digits)

/-- The numbers that integer literals denote: numerals, with a final `&` if they are long. -/
inductive Integer : List Char → Nat → Prop where
  | plain {text : List Char} {number : Nat} (numeral : Numeral text number) : Integer text number
  | long {text : List Char} {number : Nat} (numeral : Numeral text number) :
      Integer (text ++ ['&']) number

section Integers

variable {cs : List Char}

theorem isInteger_iff : isInteger cs = true ↔ ∃ number, Numeral cs number := by
  constructor
  · intro integer
    unfold isInteger at integer
    split at integer
    · simp only [Bool.and_eq_true, Bool.or_eq_true, beq_iff_eq, Bool.not_eq_true',
        List.isEmpty_eq_false_iff, List.all_eq_true] at integer
      exact ⟨_, .hexadecimal integer.1.1 integer.1.2 integer.2⟩
    · exact ⟨_, .decimal integer⟩
  · rintro ⟨number, numeral⟩
    cases numeral with
    | hexadecimal marked nonempty valid =>
      simp only [isInteger, Bool.and_eq_true, Bool.or_eq_true, beq_iff_eq, Bool.not_eq_true',
        List.isEmpty_eq_false_iff, List.all_eq_true]
      exact ⟨⟨marked, nonempty⟩, valid⟩
    | decimal valid =>
      unfold isInteger
      split
      · cases valid
      · exact valid

theorem Numeral.chars {number : Nat} (numeral : Numeral cs number) :
    ∀ c ∈ cs, (isHexDigit c || ['h', 'H', '&'].contains c) = true := by
  cases numeral with
  | decimal valid =>
    simp only [isDigits, Bool.and_eq_true, List.all_eq_true] at valid
    intro c member
    simp [isHexDigit, valid.2 c member]
  | hexadecimal marked nonempty valid =>
    simp only [List.forall_mem_cons]
    refine ⟨by decide, by rcases marked with rfl | rfl <;> decide, ?_⟩
    intro c member
    simp [valid c member]

/-- An integer literal is written without a sign. -/
theorem Integer.chars {number : Nat} (integer : Integer cs number) :
    ∀ c ∈ cs, (isHexDigit c || ['h', 'H', '&'].contains c) = true := by
  cases integer with
  | plain numeral => exact numeral.chars
  | long numeral =>
    rw [List.forall_mem_append, List.forall_mem_singleton]
    exact ⟨numeral.chars, by decide⟩

/-- A numeral ends in one of its digits. -/
theorem Numeral.getLast?_ne {number : Nat} (numeral : Numeral cs number) :
    cs.getLast? ≠ some '&' := by
  intro last
  cases numeral with
  | decimal valid =>
    simp only [isDigits, Bool.and_eq_true, List.all_eq_true] at valid
    exact absurd (valid.2 '&' (List.mem_of_getLast? last)) (by decide)
  | @hexadecimal mark digits marked nonempty valid =>
    have ends : digits.getLast? = some '&' := by
      rwa [List.getLast?_cons_of_ne_nil (by simp), List.getLast?_cons_of_ne_nil nonempty] at last
    exact absurd (valid '&' (List.mem_of_getLast? ends)) (by decide)

theorem isInteger_splitMark_iff :
    isInteger (splitMark ['&'] cs).1 = true ↔ ∃ number, Integer cs number := by
  constructor
  · intro integer
    obtain ⟨number, numeral⟩ := isInteger_iff.mp integer
    obtain ⟨parts, marked⟩ := @Line.splitMark_eq cs ['&']
    cases found : (splitMark ['&'] cs).2 with
    | none =>
      rw [found, Option.toList_none, List.append_nil] at parts
      exact ⟨number, parts ▸ .plain numeral⟩
    | some c =>
      rw [found] at parts marked
      have long : c = '&' := List.mem_singleton.mp (marked c rfl)
      rw [parts, long]
      exact ⟨number, .long numeral⟩
  · rintro ⟨number, integer⟩
    refine isInteger_iff.mpr ⟨number, ?_⟩
    cases integer with
    | plain numeral =>
      have whole : (splitMark ['&'] cs).1 = cs := by
        unfold splitMark
        split
        · rename_i c last
          split
          · rename_i marked
            rw [List.contains_iff_mem, List.mem_singleton] at marked
            exact absurd (marked ▸ last) numeral.getLast?_ne
          · rfl
        · rfl
      exact whole.symm ▸ numeral
    | @long text number numeral =>
      have whole : (splitMark ['&'] (text ++ ['&'])).1 = text := by simp [splitMark]
      exact whole.symm ▸ numeral

/-- The texts that are literals of an integer type are the integer literals. -/
theorem of?_integer_iff :
    (of? cs = some .integer ∨ of? cs = some .longInteger) ↔ ∃ number, Integer cs number := by
  rw [← isInteger_splitMark_iff]
  constructor
  · intro found
    by_contra noInteger
    simp only [of?, noInteger, if_false] at found
    split_ifs at found <;> simp at found
  · intro integer
    obtain ⟨numeric, -⟩ :=
      Line.numeric_of_splitMark (by decide) (Line.numeric_of_isInteger integer)
    have noString : isString cs = false := by
      rw [Bool.eq_false_iff]
      intro string
      obtain ⟨-, last⟩ := Line.isString_parts string
      exact absurd (numeric '"' (List.mem_of_getLast? last)) (by decide)
    simp only [of?, noString, integer, Bool.false_eq_true, if_false, if_true]
    split_ifs
    · exact Or.inr rfl
    · exact Or.inl rfl

end Integers

end LiteralKind

/-- The initializer implies an integer type. -/
def Expression.IsInteger (value : Expression) : Prop :=
  value.type = .builtin .integer ∨ value.type = .builtin .longInteger

/-- An initializer implies an integer type if it is an integer literal between white space. -/
theorem isInteger_ofText_iff (text : List Char) :
    (Expression.ofText text).IsInteger ↔
      ∃ number, LiteralKind.Integer (Text.trim text) number := by
  rw [← LiteralKind.of?_integer_iff, Expression.IsInteger, Expression.ofText]
  cases kind : LiteralKind.of? (Text.trim text) with
  | none => simp [Expression.type]
  | some kind' => cases kind' <;> simp [Expression.type, kind, LiteralKind.type]

namespace EnumValue

theorem toString_ne_placeholder (number : Int) : toString number ≠ placeholder := by
  rw [Int.toString_eq_repr, Int.repr_eq_if]
  intro same
  split at same
  · have brace : '\x7b' ∈ Nat.toDigits 10 number.toNat := by
      rw [← Nat.toList_repr, same]
      decide
    exact absurd (Nat.isDigit_of_mem_toDigits (by decide) (by decide) brace) (by decide)
  · have signed := congrArg String.toList same
    simp [placeholder] at signed

/-- Digits are no hexadecimal literal and have no designator. -/
theorem decimal_of_integer {text : List Char} {number : Nat}
    (integer : LiteralKind.Integer text number) (digits : LiteralKind.isDigits text = true) :
    number = decimal text := by
  cases integer with
  | plain numeral =>
    cases numeral with
    | decimal valid => rfl
    | hexadecimal marked nonempty valid => cases digits
  | long numeral =>
    simp only [LiteralKind.isDigits, Bool.and_eq_true, List.all_eq_true] at digits
    exact absurd (digits.2 '&' (by simp)) (by decide)

/-- Members are counted on from an integer literal if it is written with decimal digits alone. -/
theorem whole?_of_integer {text : List Char} {number : Nat}
    (integer : LiteralKind.Integer (Text.trim text) number) (small : number ≤ 9223372036854775807) :
    whole? text = if LiteralKind.isDigits text then some (number : Int) else none := by
  split
  · rename_i digits
    have chars : ∀ c ∈ text, c.isDigit = true := by
      simp only [LiteralKind.isDigits, Bool.and_eq_true, List.all_eq_true] at digits
      exact digits.2
    rw [Text.trim_of_inked fun c member => (Line.isCodeChar_apart
      (Line.isNumberChar_apart (Line.isNumberChar_of_isDigit (chars c member))).1).1] at integer
    rw [decimal_of_integer integer digits] at small ⊢
    exact whole?_eq_some_iff.mpr ⟨.unsigned digits, by omega, by omega⟩
  · rename_i notDigits
    rw [Option.eq_none_iff_forall_ne_some]
    intro read found
    cases (whole?_eq_some_iff.mp found).1 with
    | unsigned valid => exact notDigits valid
    | plus valid =>
      exact absurd (integer.chars '+' (Text.mem_trim_of_inked (by decide) (by simp))) (by decide)
    | minus valid =>
      exact absurd (integer.chars '-' (Text.mem_trim_of_inked (by decide) (by simp))) (by decide)

/-- A member without a value of its own, by the value written nearest before it. -/
theorem valueAt_of_nearest? {written : List (Option (List Char))} {i j : Nat} {text : List Char}
    (unwritten : written[i]?.join = none) (near : nearest? written i = some (j, text)) :
    valueAt written i =
        ((whole? text).map fun number => toString (word (number + ((i : Int) - j)))).getD
          placeholder ∧
      isOpenAt written i = (whole? text).isNone := by
  rw [valueAt, isOpenAt, unwritten, near]
  dsimp only
  cases whole? text with
  | none => exact ⟨rfl, rfl⟩
  | some number => exact ⟨rfl, rfl⟩

/-- The value nearest before a member is written for an earlier one. -/
theorem lt_of_nearest? {written : List (Option (List Char))} {i j : Nat} {text : List Char}
    (near : nearest? written i = some (j, text)) : j < i := by
  obtain ⟨k, before, found⟩ := List.exists_of_findSome?_eq_some near
  obtain ⟨_, _, same⟩ := Option.map_eq_some_iff.mp found
  cases same
  exact List.mem_range.mp (List.mem_reverse.mp before)

/-- A member whose value is left open shows none. -/
theorem valueAt_of_isOpenAt {written : List (Option (List Char))} {i : Nat}
    (isOpen : isOpenAt written i = true) : valueAt written i = placeholder := by
  rw [isOpenAt] at isOpen
  rw [valueAt]
  cases own : written[i]?.join with
  | some text =>
    rw [own] at isOpen
    cases isOpen
  | none =>
    rw [own] at isOpen
    cases near : nearest? written i with
    | none =>
      rw [near] at isOpen
      cases isOpen
    | some found =>
      rw [near, Option.isNone_iff_eq_none] at isOpen
      dsimp only
      rw [isOpen]

end EnumValue

namespace WrittenMember

variable {written : List WrittenMember}

theorem getElem?_members (written : List WrittenMember) (i : Nat) :
    (members written)[i]? = written[i]?.map (numbered written i) := by
  rw [members, List.getElem?_mapIdx]

/-- The members whose values are left open, by their places. -/
theorem mem_opens_iff {found : String × Nat} :
    found ∈ opens written ↔ ∃ i m, written[i]? = some m ∧
      EnumValue.isOpenAt (values written) i = true ∧
      (String.ofList m.name, m.line.number) = found := by
  simp only [opens, List.mem_map, List.mem_filter, Prod.exists, List.mem_zipIdx_iff_getElem?]
  constructor
  · rintro ⟨m, i, ⟨here, isOpen⟩, same⟩
    exact ⟨i, m, here, isOpen, same⟩
  · rintro ⟨i, m, here, isOpen, same⟩
    exact ⟨m, i, ⟨here, isOpen⟩, same⟩

end WrittenMember

mutual

/-- The members of an enum are declarations. -/
theorem member_mem_declarations {e : EnumDecl} {m : EnumMember} (member : m ∈ e.members) :
    (statement : Statement) → e ∈ statement.enums →
      (.enumMember m.name m.value, { range := m.range }) ∈ statement.outline.declarations
  | .enumDecl d, among => by
    rw [Statement.enums, List.mem_singleton] at among
    subst among
    obtain ⟨item, inside, same⟩ := List.mem_filterMap.mp member
    cases item with
    | comment c => cases same
    | member m' =>
      cases same
      rw [Statement.outline, Outline.declarations]
      exact List.mem_cons_of_mem _
        (mem_declarationsOf (List.mem_map_of_mem (f := EnumItem.outline) inside)).1
  | .namespaceDecl head body, among => by
    rw [Statement.enums] at among
    rw [Statement.outline, Outline.declarations]
    exact List.mem_cons_of_mem _ (member_mem_declarationsOf member body among)
  | .comment _, among | .function _, among | .classDecl _, among | .interfaceDecl _, among
  | .constDecl _, among => by simp [Statement.enums] at among

theorem member_mem_declarationsOf {e : EnumDecl} {m : EnumMember} (member : m ∈ e.members) :
    (statements : List Statement) → e ∈ enumsOf statements →
      (.enumMember m.name m.value, { range := m.range }) ∈ declarationsOf (outlines statements)
  | [], among => by
    rw [enumsOf] at among
    cases among
  | statement :: more, among => by
    rw [enumsOf, List.mem_append] at among
    rw [outlines, declarationsOf, List.mem_append]
    exact among.imp (member_mem_declarations member statement)
      (member_mem_declarationsOf member more)

end

section Parsed

variable {dialect : Dialect} {source : String} {statements : List Statement}

/-- The members that are reported are those whose values are left open. -/
theorem openValue_mem_warnings_iff (parsed : (parse dialect source).result = .ok statements)
    {name : String} {line : Nat} :
    .openValue name line ∈ (parse dialect source).warnings ↔
      ∃ e ∈ enumsOf statements, (name, line) ∈ e.opens (Text.lines source.toList) := by
  rw [parse, ← List.mem_flatMap, ← (numbered_of_read parsed).2, List.mem_filterMap]
  constructor
  · exact fun inside => ⟨_, inside, rfl⟩
  · rintro ⟨warning, inside, found⟩
    cases warning with
    | openValue member line => cases found; exact inside
    | annotationLine line => cases found
    | declaration word line => cases found

/-- A member that shows a number is not reported, as it is alone on its line. -/
theorem openValue_notMem_warnings (parsed : (parse dialect source).result = .ok statements)
    {e : EnumDecl} (among : e ∈ enumsOf statements) {i : Nat} {m : WrittenMember} {name : String}
    (here : (e.written (Text.lines source.toList))[i]? = some m)
    (shows : EnumValue.valueAt (WrittenMember.values (e.written (Text.lines source.toList))) i ≠
      EnumValue.placeholder) :
    .openValue name m.line.number ∉ (parse dialect source).warnings := by
  rw [openValue_mem_warnings_iff parsed]
  rintro ⟨e', among', opened⟩
  obtain ⟨i', m', here', isOpen, same⟩ := WrittenMember.mem_opens_iff.mp opened
  have declared : ∀ {e : EnumDecl} {i : Nat} {m : WrittenMember}, e ∈ enumsOf statements →
      (e.written (Text.lines source.toList))[i]? = some m →
      (.enumMember (String.ofList m.name)
          (EnumValue.valueAt (WrittenMember.values (e.written (Text.lines source.toList))) i),
        { range := m.line.codeRange }) ∈ declarationsOf (outlines statements) := by
    intro e i m among here
    refine member_mem_declarationsOf (m := WrittenMember.numbered _ i m) ?_ statements among
    rw [((numbered_of_read parsed).1 e among).members_eq]
    apply List.mem_of_getElem? (i := i)
    rw [WrittenMember.getElem?_members]
    exact congrArg _ here
  have sameLine : m'.line.index = m.line.index := Nat.succ.inj (Prod.mk.inj same).2
  have equal := (outlined_of_parse parsed).eq_of_shared_mark (declared among here)
    (declared among' here') (start_mem_marks _) (by
      show m.line.index ∈ _
      rw [← sameLine]
      exact start_mem_marks _)
  have values := (Header.enumMember.inj (Prod.mk.inj equal).1).2
  exact shows (values.trans (EnumValue.valueAt_of_isOpenAt isOpen))

end Parsed

/-- One notion of an integer is narrower than the other: an initializer implies an integer type if it is
an integer literal, and a member that has no value of its own and is written after such a literal gets
the integer that counts on from it, with no warning about it, exactly if the literal is written with
decimal digits alone, as long as the counted integers stay below the greatest one of 64 bits. After any
other integer literal the value is left open, with a warning. -/
theorem integer_members_counted_on_iff (dialect : Dialect) (source : String)
    (statements : List Statement) (parsed : (parse dialect source).result = .ok statements) :
    (∀ text, (Expression.ofText text).IsInteger ↔
      ∃ number, LiteralKind.Integer (Text.trim text) number) ∧
    ∀ e ∈ enumsOf statements, ∀ i m j text number,
      (e.written (Text.lines source.toList))[i]? = some m → m.value = none →
      EnumValue.nearest? (WrittenMember.values (e.written (Text.lines source.toList))) i =
        some (j, text) →
      LiteralKind.Integer (Text.trim text) number → number ≤ 9223372036854775807 →
      ∃ member, e.members[i]? = some member ∧ member.name = String.ofList m.name ∧
        ((number : Int) + ((i : Int) - j) < 9223372036854775807 →
          (member.value = toString ((number : Int) + ((i : Int) - j)) ∧
              .openValue member.name m.line.number ∉ (parse dialect source).warnings ↔
            LiteralKind.isDigits text = true)) ∧
        (member.value = EnumValue.placeholder ∧
            .openValue member.name m.line.number ∈ (parse dialect source).warnings ↔
          LiteralKind.isDigits text = false) := by
  refine ⟨isInteger_ofText_iff, ?_⟩
  intro e among i m j text number here unwritten near integer small
  have own : (WrittenMember.values (e.written (Text.lines source.toList)))[i]?.join = none := by
    rw [WrittenMember.values, List.getElem?_map, here, Option.map_some, Option.join_some, unwritten]
  obtain ⟨value, isOpen⟩ := EnumValue.valueAt_of_nearest? own near
  rw [EnumValue.whole?_of_integer integer small] at value isOpen
  refine ⟨WrittenMember.numbered (e.written (Text.lines source.toList)) i m, ?_, rfl, ?_⟩
  · rw [((numbered_of_read parsed).1 e among).members_eq]
    exact (WrittenMember.getElem?_members _ i).trans (congrArg _ here)
  cases digits : LiteralKind.isDigits text with
  | true =>
    rw [digits, if_pos rfl] at value
    have shows : EnumValue.valueAt (WrittenMember.values (e.written (Text.lines source.toList))) i ≠
        EnumValue.placeholder := by
      rw [value]
      exact EnumValue.toString_ne_placeholder _
    refine ⟨fun bounded => iff_of_true ⟨?_, ?_⟩ rfl, iff_of_false (fun left => shows left.1) (by simp)⟩
    · have after := EnumValue.lt_of_nearest? near
      exact value.trans (congrArg toString (EnumValue.word_eq_self (by omega) (by omega)))
    · exact openValue_notMem_warnings parsed among here shows
  | false =>
    rw [digits] at value isOpen
    have reported : .openValue (String.ofList m.name) m.line.number ∈
        (parse dialect source).warnings :=
      (openValue_mem_warnings_iff parsed).mpr
        ⟨e, among, WrittenMember.mem_opens_iff.mpr ⟨i, m, here, isOpen, rfl⟩⟩
    exact ⟨fun _ => iff_of_false (fun counted => counted.2 reported) (by simp),
      iff_of_true ⟨value, reported⟩ rfl⟩

/-- A member is counted on from decimal digits, over a comment and another member. -/
theorem member_counted_on_from_digits :
    let source := "enum E\nA = 41\n' B\nB\nC\nend enum"
    ∃ statements, (parse .brighterScript source).result = .ok statements ∧
      ∃ e ∈ enumsOf statements, ∃ member, e.members[2]? = some member ∧ member.name = "C" ∧
        member.value = "43" ∧ .openValue "C" 5 ∉ (parse .brighterScript source).warnings := by
  intro source
  have written : (parse .brighterScript source).result.toOption.map (fun statements =>
      (enumsOf statements).map fun e => (e.written (Text.lines source.toList))[2]?.map fun m =>
        (String.ofList m.name, m.line.index, m.value.isNone)) = some [some ("C", 4, true)] := by
    decide +kernel
  have before : (parse .brighterScript source).result.toOption.map (fun statements =>
      (enumsOf statements).map fun e =>
        EnumValue.nearest? (WrittenMember.values (e.written (Text.lines source.toList))) 2) =
        some [some (0, ['4', '1'])] := by
    decide +kernel
  cases parsed : (parse .brighterScript source).result with
  | error e =>
    rw [parsed] at written
    cases written
  | ok statements =>
    rw [parsed] at written before
    obtain ⟨e, only, found⟩ := List.map_eq_singleton_iff.mp (Option.some.inj written)
    have near := Option.some.inj before
    dsimp only at near
    rw [only, List.map_singleton, List.singleton_inj] at near
    obtain ⟨m, here, parts⟩ := Option.map_eq_some_iff.mp found
    obtain ⟨name, index, value⟩ : String.ofList m.name = "C" ∧ m.line.index = 4 ∧ m.value = none := by
      simpa using parts
    have among : e ∈ enumsOf statements := by
      rw [only]
      exact List.mem_singleton_self e
    obtain ⟨member, inside, named, counted, -⟩ :=
      (integer_members_counted_on_iff .brighterScript source statements parsed).2 e among 2 m 0
        ['4', '1'] 41 here value near (.plain (.decimal (by decide))) (by decide)
    obtain ⟨shown, unreported⟩ := (counted (by decide)).mpr (by decide)
    rw [name] at named
    rw [named, SourceLine.number, index] at unreported
    exact ⟨statements, rfl, e, among, member, inside, named, shown, unreported⟩

/-- An integer literal that the next member is not counted on from. -/
theorem hexadecimal_value_not_counted_on :
    let source := "enum E\nA = &hFF\nB\nend enum"
    (Expression.ofText "&hFF".toList).type = .builtin .integer ∧
    LiteralKind.Integer "&hFF".toList 255 ∧
    ((parse .brighterScript source).result.toOption.map fun statements =>
      (enumsOf statements).map fun e => e.members.map EnumMember.value) =
        some [["&hFF", EnumValue.placeholder]] ∧
    (parse .brighterScript source).warnings = [.openValue "B" 3] := by
  refine ⟨by decide +kernel, ?_, by decide +kernel, by decide +kernel⟩
  exact .plain (.hexadecimal (Or.inl rfl) (by decide) (List.all_eq_true.mp (by decide)))

end BrightDoc
