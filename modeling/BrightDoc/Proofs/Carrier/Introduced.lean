import BrightDoc.Carrier.Plan
import BrightDoc.Proofs.Carrier.Settling
import BrightDoc.Proofs.Reader.Arrangement

/-! # Namespaces are introduced before use

The entries of a tree declare the beginnings of a namespace's path one after the other, from the
namespace around it, and only then what stands in it. -/

namespace BrightDoc

open BrightDoc.Text

/-- The name of a namespace: characters of dotted names, of which the first one is no dot. -/
structure DottedName (name : String) : Prop where
  token : TokenText name
  start : ∃ c rest, name.toList = c :: rest ∧ c ≠ '.'

/-- The header has a dotted name, if it is one of a namespace. -/
def Header.IsDotted : Header → Prop
  | namespaceDecl name => DottedName name
  | _ => True

theorem dottedName_of_namespaceHeader? {code name : List Char}
    (found : Line.namespaceHeader? code = some name) : DottedName (String.ofList name) := by
  simp only [Line.namespaceHeader?, Option.bind_eq_bind, Option.bind_eq_some_iff] at found
  obtain ⟨start, -, ⟨token, rest⟩, named, checked⟩ := found
  obtain ⟨-, ⟨c, tail, rfl, isLetter⟩, tails⟩ := Line.token?_eq_some named
  split at checked
  · rw [Line.done?_eq_some checked]
    refine ⟨?_, c, tail, String.toList_ofList, ?_⟩
    · rw [TokenText, String.toList_ofList]
      exact tails
    · rintro rfl
      exact absurd isLetter (by decide)
  · cases checked

theorem Reads.isDotted {l : SourceLine} {header : Header} (reads : Reads l header) :
    header.IsDotted := by
  cases reads with
  | namespaceDecl recognised => exact dottedName_of_namespaceHeader? recognised
  | _ => trivial

/-- The namespaces of a parsed tree have dotted names. -/
theorem isDotted_of_parse {dialect : Dialect} {source : String} {statements : List Statement}
    (parsed : (parse dialect source).result = .ok statements) :
    ∀ found ∈ declarationsOf (outlines statements), found.1.IsDotted := by
  intro found inside
  obtain ⟨text, -, -, reads⟩ := ((outlined_of_parse parsed).declared inside).read
  exact reads.isDotted

end BrightDoc

namespace BrightDoc.Carrier

open BrightDoc.Text
open BrightDoc.Declared (namespaceKey namespaceKey_dotted dotless_namespaceKey)

/-- The namespace around is known. -/
structure Scope.IsKnown (declared : Declared) (scope : Scope) : Prop where
  token : TokenText scope.inSpace
  known : scope.inSpace ≠ "" → namespaceKey scope.inSpace ∈ declared.namespaces

section Paths

variable {declared : Declared} {scope : Scope}

theorem pathTo_dotted (path segment : String) :
    scope.pathTo (path ++ "." ++ segment) = scope.pathTo path ++ "." ++ segment := by
  unfold Scope.pathTo
  split
  · rfl
  · simp only [String.append_assoc]

theorem dotted_ne_empty (path segment : String) : path ++ "." ++ segment ≠ "" := by
  intro empty
  have parts := congrArg String.toList empty
  simp at parts

theorem tokenText_pathTo (token : TokenText scope.inSpace) {name : String}
    (tokenName : TokenText name) : TokenText (scope.pathTo name) := by
  unfold Scope.pathTo
  split
  · exact tokenName
  · exact tokenText_dotted.mpr ⟨token, tokenName⟩

/-- A segment may be declared in a namespace that has been. -/
theorem admits_dotted {path segment : String} (token : TokenText path)
    (tokenSegment : TokenText segment) (dotless : '.' ∉ segment.toList)
    (known : namespaceKey path ∈ declared.namespaces) :
    declared.Admits (path ++ "." ++ segment) := by
  intro outer last lastDotless split
  rw [namespaceKey_dotted token tokenSegment] at split
  rw [← outer_unique (dotless_namespaceKey tokenSegment dotless) lastDotless split]
  exact known

/-- A name without dots may be declared in a namespace that is known. -/
theorem admits_pathTo (around : scope.IsKnown declared) {segment : String}
    (tokenSegment : TokenText segment) (dotless : '.' ∉ segment.toList) :
    declared.Admits (scope.pathTo segment) := by
  unfold Scope.pathTo
  split
  · intro outer last lastDotless split
    have dotless := dotless_namespaceKey tokenSegment dotless
    rw [split, toList_dotted] at dotless
    exact absurd (List.mem_append_right _ List.mem_cons_self) dotless
  · rename_i inside
    exact admits_dotted around.token tokenSegment dotless (around.known inside)

end Paths

section Namespaces

variable (escape : Bool) (scope : Scope) (comment : Option Comment)

/-- The entries that declare the namespaces with the given paths, which are counted from `index`. -/
def namespaceEntriesFrom (index : Nat) (paths : List String) : List Entry :=
  (paths.zipIdx index).map fun (part, index) =>
    namespaceEntry escape comment (scope.inSpace = "" && index == 0) (scope.pathTo part)

theorem namespaceKeys_entriesFrom (index : Nat) (paths : List String) :
    namespaceKeys (namespaceEntriesFrom escape scope comment index paths) =
      paths.map fun path => namespaceKey (scope.pathTo path) := by
  induction paths generalizing index with
  | nil => rfl
  | cons path more ih => exact congrArg (namespaceKey (scope.pathTo path) :: ·) (ih (index + 1))

variable {scope}

/-- Each beginning of a name is introduced after the one before it. -/
theorem introduced_chainFrom {declared : Declared} {path : String} {parts : List String}
    (some : path ≠ "") (token : TokenText (scope.pathTo path))
    (known : namespaceKey (scope.pathTo path) ∈ declared.namespaces)
    (each : ∀ part ∈ parts, TokenText part ∧ '.' ∉ part.toList) (index : Nat) :
    Introduced declared
      (namespaceEntriesFrom escape scope comment index (chainFrom path parts)) := by
  induction parts generalizing declared path index with
  | nil => trivial
  | cons part more ih =>
    rw [List.forall_mem_cons] at each
    rw [chainFrom, if_neg some]
    have tokenNext : TokenText (scope.pathTo (path ++ "." ++ part)) := by
      rw [pathTo_dotted]
      exact tokenText_dotted.mpr ⟨token, each.1.1⟩
    refine ⟨?_, ih (dotted_ne_empty path part) tokenNext ?_ each.2 (index + 1)⟩
    · show declared.Admits (scope.pathTo (path ++ "." ++ part))
      rw [pathTo_dotted]
      exact admits_dotted token each.1.1 each.1.2 known
    · exact Declared.mem_addNamespace.mpr (Or.inr List.mem_cons_self)

/-- The last one of the beginnings is the whole name. -/
theorem mem_chainFrom {path : String} (some : path ≠ "") {segments : List (List Char)}
    (nonempty : segments ≠ []) :
    path ++ "." ++ String.ofList (['.'].intercalate segments) ∈
      chainFrom path (segments.map String.ofList) := by
  induction segments generalizing path with
  | nil => exact absurd rfl nonempty
  | cons segment more ih =>
    rw [List.map_cons, chainFrom, if_neg some]
    cases more with
    | nil => simp [chainFrom]
    | cons next more =>
      have inside := @ih (path ++ "." ++ String.ofList segment) (dotted_ne_empty _ _) (by simp)
      have same : path ++ "." ++ String.ofList (['.'].intercalate (segment :: next :: more)) =
          path ++ "." ++ String.ofList segment ++ "." ++
            String.ofList (['.'].intercalate (next :: more)) := by
        apply String.toList_injective
        simp [List.intercalate_cons_cons]
      rw [same]
      exact List.mem_cons_of_mem _ inside

/-- The beginnings of a name, by its segments. -/
theorem chain_eq {name : String} (dotted : DottedName name) :
    ∃ first more, chain name = first :: chainFrom first more ∧ first ≠ "" ∧ name ∈ chain name ∧
      ∀ part ∈ first :: more, TokenText part ∧ '.' ∉ part.toList := by
  -- The chain starts anew while it is empty, so the first segment must not be.
  obtain ⟨c, rest, start, notDot⟩ := dotted.start
  obtain ⟨segment, more, split⟩ := List.exists_cons_of_ne_nil (pieces_ne_nil '.' rest)
  have whole : pieces '.' name.toList = (c :: segment) :: more := by
    rw [start, pieces, if_neg notDot, split]
  have some : String.ofList (c :: segment) ≠ "" := by
    intro empty
    have parts := congrArg String.toList empty
    simp at parts
  have chained : chain name = String.ofList (c :: segment) ::
      chainFrom (String.ofList (c :: segment)) (more.map String.ofList) := by
    rw [chain, whole, List.map_cons, chainFrom, if_pos rfl]
  refine ⟨_, _, chained, some, ?_, ?_⟩
  · have joined := intercalate_pieces '.' name.toList
    rw [whole] at joined
    rw [chained]
    cases more with
    | nil =>
      rw [List.intercalate_singleton] at joined
      rw [joined, String.ofList_toList]
      exact List.mem_cons_self
    | cons next more =>
      have inside := mem_chainFrom some (List.cons_ne_nil next more)
      have same : name = String.ofList (c :: segment) ++ "." ++
          String.ofList (['.'].intercalate (next :: more)) := by
        apply String.toList_injective
        rw [← joined, toList_dotted, String.toList_ofList, String.toList_ofList,
          List.intercalate_cons_cons, List.append_assoc]
        rfl
      rw [same]
      exact List.mem_cons_of_mem _ inside
  · rw [← List.map_cons (f := String.ofList), ← whole, List.forall_mem_map]
    intro piece member
    obtain ⟨isPart, dotless⟩ := infix_of_mem_pieces member
    rw [TokenText, String.toList_ofList]
    exact ⟨fun d inside => dotted.token d (isPart.subset inside), dotless⟩

/-- A namespace is introduced by its beginnings, and has been declared after them. -/
theorem introduced_namespaceEntries {declared : Declared} (around : scope.IsKnown declared)
    {name : String} (dotted : DottedName name) :
    Introduced declared (namespaceEntries escape scope comment name) ∧
      Scope.IsKnown (settle declared (namespaceEntries escape scope comment name)).2
        { scope with inSpace := scope.pathTo name } := by
  have entries : namespaceEntries escape scope comment name =
      namespaceEntriesFrom escape scope comment 0 (chain name) := rfl
  obtain ⟨first, more, chained, some, last, each⟩ := chain_eq dotted
  rw [List.forall_mem_cons] at each
  refine ⟨?_, tokenText_pathTo around.token dotted.token, ?_⟩
  · rw [entries, chained]
    refine ⟨admits_pathTo around each.1.1 each.1.2, ?_⟩
    apply introduced_chainFrom escape comment some (tokenText_pathTo around.token each.1.1) _ each.2 1
    exact Declared.mem_addNamespace.mpr (Or.inr List.mem_cons_self)
  · intro _
    rw [mem_settle_namespaces, entries, namespaceKeys_entriesFrom]
    exact Or.inr (List.mem_map_of_mem last)

end Namespaces

section Trees

variable (escape : Bool)

theorem Scope.IsKnown.mono {declared wider : Declared} {scope : Scope}
    (around : scope.IsKnown declared) (sub : declared.namespaces ⊆ wider.namespaces) :
    scope.IsKnown wider :=
  ⟨around.token, fun named => sub (around.known named)⟩

theorem introduced_declaration {declared : Declared} {scope : Scope}
    (around : scope.IsKnown declared) (pieces : List Piece) :
    Introduced declared [.declaration scope.inSpace pieces] :=
  ⟨around.known, trivial⟩

theorem introduced_orNothing {declared : Declared} {entries : List Entry}
    (introduced : Introduced declared entries) : Introduced declared (orNothing entries) := by
  unfold orNothing
  split
  · exact ⟨trivial, trivial⟩
  · exact introduced

mutual

/-- The entries of a statement are introduced, if the namespace around it is known. -/
theorem introduced_planStatement {declared : Declared} {scope : Scope}
    (around : scope.IsKnown declared) (comments : List Comment) :
    (statement : Statement) → statement.outline.All Header.IsDotted →
      Introduced declared (planStatement escape scope comments statement)
  | .comment c, _ => by
    rw [planStatement]
    trivial
  | .function f, _ => by
    rw [planStatement]
    exact introduced_declaration around _
  | .classDecl c, _ => by
    rw [planStatement]
    exact introduced_declaration around _
  | .interfaceDecl i, _ => by
    rw [planStatement]
    exact introduced_declaration around _
  | .enumDecl e, _ => by
    rw [planStatement]
    exact introduced_declaration around _
  | .constDecl c, _ => by
    rw [planStatement]
    exact introduced_declaration around _
  | .namespaceDecl head body, dotted => by
    rw [Statement.outline, all_decl] at dotted
    obtain ⟨opened, inside⟩ := introduced_namespaceEntries escape (head.placement.comment? comments)
      around dotted.1
    rw [planStatement, introduced_append]
    exact ⟨opened, introduced_orNothing (introduced_planEach inside _ body dotted.2)⟩

/-- So are the entries of some statements. -/
theorem introduced_planEach {declared : Declared} {scope : Scope}
    (around : scope.IsKnown declared) (comments : List Comment) :
    (statements : List Statement) → (∀ node ∈ outlines statements, node.All Header.IsDotted) →
      Introduced declared (planEach escape scope comments statements)
  | [], _ => by
    rw [planEach]
    trivial
  | statement :: more, dotted => by
    rw [outlines, List.forall_mem_cons] at dotted
    have first := introduced_planStatement around comments statement dotted.1
    rw [planEach, introduced_append]
    refine ⟨first, introduced_planEach (around.mono ?_) comments more dotted.2⟩
    intro key known
    exact mem_settle_namespaces.mpr (Or.inl known)

end

end Trees

end BrightDoc.Carrier
