import BrightDoc.Proofs.Reader.Arrangement
import BrightDoc.Proofs.Text.Pieces

/-! # What the headers of a text are made of

Names and types of declarations are plain: no asterisk, slash or line feed is in them. Initializers
are as they are written, on a single line. -/

namespace BrightDoc

open BrightDoc.Line (Plain)

/-- The name of a declaration. -/
def PlainName (name : String) : Prop :=
  Plain name.toList ∧ name ≠ ""

/-- A parameter with a plain name and type, and a default on one line. -/
structure Param.IsPlain (p : Param) : Prop where
  name : Plain p.name.toList
  type : ∀ type ∈ p.type, Plain type.name.toList
  default : ∀ value ∈ p.default, '\n' ∉ value.text.toList

/-- A signature with plain names and types. -/
structure Signature.IsPlain (s : Signature) : Prop where
  name : PlainName s.name
  params : ∀ p ∈ s.params, p.IsPlain
  returns : ∀ type ∈ s.returns, Plain type.name.toList

/-- A header with plain names and types, and values on one line. -/
def Header.IsPlain : Header → Prop
  | function signature => signature.IsPlain
  | method signature _ _ => signature.IsPlain
  | interfaceMethod signature => signature.IsPlain
  | classDecl name parent => PlainName name ∧ ∀ token ∈ parent, Plain token.toList
  | interfaceDecl name parent => PlainName name ∧ ∀ token ∈ parent, Plain token.toList
  | field name type _ => Plain name.toList ∧ ∀ t ∈ type, Plain t.name.toList
  | interfaceField name token => Plain name.toList ∧ ∀ t ∈ token, Plain t.toList
  | enumDecl name => PlainName name
  | enumMember name value => PlainName name ∧ '\n' ∉ value.toList
  | constDecl name value => PlainName name ∧ '\n' ∉ value.text.toList
  | namespaceDecl name => PlainName name

theorem plainName_ofList {name : List Char} (plain : Plain name ∧ name ≠ []) :
    PlainName (String.ofList name) := by
  refine ⟨?_, ?_⟩
  · rw [String.toList_ofList]
    exact plain.1
  · intro empty
    apply plain.2
    rw [← String.toList_ofList (l := name), empty]
    rfl

theorem plain_builtin (type : BuiltinType) : Plain (TypeRef.builtin type).name.toList := by
  cases type <;> decide

theorem plain_ofToken {token : List Char} (plain : Plain token) :
    Plain (TypeRef.ofToken (String.ofList token)).name.toList := by
  rw [TypeRef.ofToken]
  split
  · exact plain_builtin _
  · rw [TypeRef.name, String.toList_ofList]
    exact plain

theorem plain_ofDesignatedName? {name : List Char} {type : TypeRef}
    (found : TypeRef.ofDesignatedName? name = some type) : Plain type.name.toList := by
  obtain ⟨c, -, designated⟩ := Option.bind_eq_some_iff.mp found
  rw [TypeRef.ofDesignator?.eq_def] at designated
  split at designated <;> cases designated <;> exact plain_builtin _

theorem plain_expression_type (value : Expression) : Plain value.type.name.toList := by
  rw [Expression.type.eq_def]
  split
  · exact plain_builtin _
  · split <;> exact plain_builtin _

theorem feedless_ofText {cs : List Char} (feedless : '\n' ∉ cs) :
    '\n' ∉ (Expression.ofText cs).text.toList := by
  have trimmed : '\n' ∉ Text.trim cs := by
    intro feed
    have inside : Text.trim cs <:+ Text.trimEnd cs := List.dropWhile_suffix Text.isWhite
    have kept := Text.dropEndWhile_isPrefix Text.isWhite cs
    exact feedless (kept.subset (inside.subset feed))
  rw [Expression.ofText]
  split <;> rw [Expression.text, String.toList_ofList] <;> exact trimmed

/-- A type that is designated by a name or implied by a value is plain. -/
theorem plain_implied {name : List Char} {value : Option Expression} {type : TypeRef}
    (found : (TypeRef.ofDesignatedName? name).or (value.map Expression.type) = some type) :
    Plain type.name.toList := by
  rcases Option.or_eq_some_iff.mp found with designated | ⟨-, implied⟩
  · exact plain_ofDesignatedName? designated
  · obtain ⟨expression, -, rfl⟩ := Option.map_eq_some_iff.mp implied
    exact plain_expression_type expression

theorem param_isPlain {text : List Char} {p : Param} (feedless : '\n' ∉ text)
    (found : Param.ofText? text = some p) : p.IsPlain := by
  simp only [Param.ofText?, Option.bind_eq_bind, Option.bind_eq_some_iff, Option.pure_def,
    Option.some.injEq] at found
  obtain ⟨parts, recognised, rfl⟩ := found
  obtain ⟨⟨name, -⟩, default, token⟩ := Line.paramParts?_eq_some recognised
  refine ⟨?_, ?_, ?_⟩
  · rw [String.toList_ofList]
    exact name
  · intro type found
    rw [Option.mem_def] at found
    dsimp only at found
    split at found
    · rename_i written isToken
      cases found
      exact plain_ofToken (token written isToken)
    · exact plain_implied found
  · intro value found
    obtain ⟨text', isDefault, rfl⟩ := Option.map_eq_some_iff.mp found
    exact feedless_ofText fun feed => feedless (default text' isDefault feed)

theorem parameterTextsFrom_subset {depth : Nat} {quoted : Bool} {piece cs text : List Char}
    (member : text ∈ Line.parameterTextsFrom depth quoted piece cs) : text ⊆ piece ++ cs := by
  have within : ∀ (c : Char) (piece cs : List Char), c :: piece ++ cs ⊆ piece ++ c :: cs := by
    intro c piece cs d inside
    simp only [List.cons_append, List.mem_cons, List.mem_append] at inside ⊢
    rcases inside with rfl | inside | inside
    · exact Or.inr (Or.inl rfl)
    · exact Or.inl inside
    · exact Or.inr (Or.inr inside)
  induction cs generalizing depth quoted piece with
  | nil =>
    rw [Line.parameterTextsFrom, List.mem_singleton] at member
    rw [member, List.append_nil]
    exact fun d inside => List.mem_reverse.mp inside
  | cons c cs ih =>
    rw [Line.parameterTextsFrom] at member
    split at member
    · exact List.Subset.trans (ih member) (within c piece cs)
    split at member
    · exact List.Subset.trans (ih member) (within c piece cs)
    split at member
    · exact List.Subset.trans (ih member) (within c piece cs)
    split at member
    · exact List.Subset.trans (ih member) (within c piece cs)
    split at member
    · rcases List.mem_cons.mp member with rfl | member
      · exact fun d inside => List.mem_append_left _ (List.mem_reverse.mp inside)
      · intro d inside
        have later := ih member inside
        rw [List.nil_append] at later
        exact List.mem_append_right _ (List.mem_cons_of_mem c later)
    · exact List.Subset.trans (ih member) (within c piece cs)

theorem parameterTexts_subset {list text : List Char} (member : text ∈ Line.parameterTexts list) :
    text ⊆ list := by
  have inside : text ∈ Line.parameterTextsFrom 0 false [] list := by
    rw [Line.parameterTexts] at member
    split at member
    · rename_i piece single
      split at member
      · cases member
      · rw [single]
        exact member
    · exact member
  exact parameterTextsFrom_subset inside

theorem params_isPlain {l : SourceLine} {texts : List (List Char)} {params : List Param}
    (feedless : ∀ text ∈ texts, '\n' ∉ text) (built : l.params texts = .ok params) :
    ∀ p ∈ params, p.IsPlain := by
  induction texts generalizing params with
  | nil =>
    cases built
    simp
  | cons text more ih =>
    rw [SourceLine.params] at built
    split at built
    · rename_i param found
      cases rest : l.params more with
      | error e =>
        rw [rest] at built
        cases built
      | ok others =>
        rw [rest] at built
        cases built
        intro p member
        rcases List.mem_cons.mp member with rfl | member
        · exact param_isPlain (feedless text List.mem_cons_self) found
        · exact ih (fun text member => feedless text (List.mem_cons_of_mem _ member)) rest p member
    · cases built

theorem signature_isPlain {l : SourceLine} {found : Line.FunctionHeader}
    {annotations : List Annotation} {f : FunctionDecl} (feedless : '\n' ∉ l.code)
    (recognised : Line.functionHeader? l.code = some found)
    (built : l.function found annotations = .ok f) : f.signature.IsPlain := by
  obtain ⟨-, name, params, returns⟩ := Line.functionHeader?_eq_some recognised
  rw [SourceLine.function] at built
  cases list : l.params (Line.parameterTexts found.params) with
  | error e =>
    rw [list] at built
    cases built
  | ok others =>
    rw [list] at built
    cases built
    refine ⟨plainName_ofList name, ?_, ?_⟩
    · apply params_isPlain _ list
      intro text member feed
      exact feedless (params (parameterTexts_subset member feed))
    · intro type isReturn
      rcases Option.or_eq_some_iff.mp isReturn with written | ⟨-, designated⟩
      · obtain ⟨token, isToken, rfl⟩ := Option.map_eq_some_iff.mp written
        exact plain_ofToken (returns token isToken)
      · exact plain_ofDesignatedName? designated

theorem feedless_assign {written : Option (List Char)} {next : Option Int}
    (feedless : ∀ text ∈ written, '\n' ∉ text) :
    '\n' ∉ (EnumValue.assign written next).value.toList := by
  have digits : ∀ n : Nat, '\n' ∉ n.repr.toList := by
    intro n feed
    rw [Nat.toList_repr] at feed
    exact absurd (Nat.isDigit_of_mem_toDigits (by decide) (by decide) feed) (by decide)
  rw [EnumValue.assign.eq_def]
  split
  · rename_i text
    rw [String.toList_ofList]
    exact feedless text rfl
  · rename_i n
    cases n with
    | ofNat n => exact digits n
    | negSucc n =>
      change '\n' ∉ ("-" ++ (n + 1).repr).toList
      rw [String.toList_append, List.mem_append, not_or]
      exact ⟨by decide, digits (n + 1)⟩
  · decide

/-- What a line says is plain. -/
theorem Reads.isPlain {l : SourceLine} {header : Header} (reads : Reads l header)
    (feedless : '\n' ∉ l.text) : header.IsPlain := by
  have code : '\n' ∉ l.code := fun feed => feedless (l.code_isPrefix.subset feed)
  have tokens : ∀ {token : Option (List Char)}, (∀ t ∈ token, Plain t) →
      ∀ t ∈ token.map String.ofList, Plain t.toList := by
    intro token plain t found
    obtain ⟨t, isToken, rfl⟩ := Option.map_eq_some_iff.mp found
    rw [String.toList_ofList]
    exact plain t isToken
  cases reads with
  | function recognised built => exact signature_isPlain code recognised built
  | method recognised built => exact signature_isPlain code recognised built
  | interfaceMethod recognised built => exact signature_isPlain code recognised built
  | classDecl recognised =>
    obtain ⟨-, name, parent⟩ := Line.inheritingHeader?_eq_some recognised
    exact ⟨plainName_ofList name, tokens parent⟩
  | interfaceDecl recognised =>
    obtain ⟨-, name, parent⟩ := Line.inheritingHeader?_eq_some recognised
    exact ⟨plainName_ofList name, tokens parent⟩
  | enumDecl recognised => exact plainName_ofList (Line.enumHeader?_eq_some recognised).2
  | namespaceDecl recognised => exact plainName_ofList (Line.namespaceHeader?_eq_some recognised).2
  | constDecl recognised =>
    obtain ⟨-, name, value⟩ := Line.constant?_eq_some recognised
    exact ⟨plainName_ofList name, feedless_ofText fun feed => code (value feed)⟩
  | @field parts recognised =>
    obtain ⟨-, ⟨name, -⟩, token⟩ := Line.field?_eq_some recognised
    refine ⟨?_, ?_⟩
    · rw [String.toList_ofList]
      exact name
    · intro type found
      have implied : parts.value.map (fun value => (Expression.ofText value).type) =
          (parts.value.map Expression.ofText).map Expression.type := by
        rw [Option.map_map]
        rfl
      rw [Option.mem_def, fieldType.eq_def, implied] at found
      split at found
      · rename_i written isToken
        cases found
        exact plain_ofToken (token written isToken)
      · exact plain_implied found
  | interfaceField recognised =>
    obtain ⟨-, ⟨name, -⟩, token⟩ := Line.interfaceField?_eq_some recognised
    refine ⟨?_, tokens token⟩
    rw [String.toList_ofList]
    exact name
  | enumMember recognised =>
    obtain ⟨-, name, value⟩ := Line.enumMember?_eq_some recognised
    exact ⟨plainName_ofList name, feedless_assign fun text found feed => code (value text found feed)⟩

/-- All headers of a parsed tree are plain. -/
theorem isPlain_of_parse {dialect : Dialect} {source : String} {statements : List Statement}
    (parsed : (parse dialect source).result = .ok statements) :
    ∀ found ∈ declarationsOf (outlines statements), found.1.IsPlain := by
  intro found inside
  obtain ⟨text, here, -, reads⟩ := ((outlined_of_parse parsed).declared inside).read
  exact reads.isPlain (Text.lines_notMem (List.mem_of_getElem? here))

end BrightDoc
