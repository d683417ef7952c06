import BrightDoc.Proofs.Reader.Errors
import BrightDoc.Proofs.Reader.Concatenation
import BrightDoc.Proofs.Reader.Indifference

/-! # A text inside a namespace

A text that can be read is read in the same way between the first and the last line of a namespace: the
reader does not look at the namespaces around it, and the text stands one line further down. Its tree,
moved down by that line, is the body of the namespace. -/

namespace BrightDoc

variable {dialect : Dialect}

/-- The first line of a namespace. -/
def namespaceLine (name : List Char) : List Char :=
  "namespace ".toList ++ name

/-- A line without apostrophes has no comment. -/
theorem Line.cutComment_of_notMem {line : List Char} (free : '\'' ∉ line) (quoted : Bool) :
    cutComment quoted line = (line, none) := by
  induction line generalizing quoted with
  | nil => rfl
  | cons c cs ih =>
    rw [List.mem_cons, not_or] at free
    rw [cutComment, if_neg (by simp [Ne.symm free.1]), ih free.2]

/-- The first line of a namespace is all code. -/
theorem splitComment_namespaceLine {name : List Char}
    (accepted : Line.namespaceHeader? (namespaceLine name) = some name) :
    Line.splitComment (namespaceLine name) = (namespaceLine name, none) := by
  apply Line.cutComment_of_notMem
  simp only [Line.namespaceHeader?, Option.bind_eq_bind, Option.bind_eq_some_iff] at accepted
  obtain ⟨start, -, ⟨token, rest⟩, named, checked⟩ := accepted
  obtain ⟨-, -, tails⟩ := Line.token?_eq_some named
  split at checked
  · cases Line.done?_eq_some checked
    intro member
    rcases List.mem_append.mp member with lead | inside
    · exact absurd lead (by decide)
    · exact absurd (tails _ inside) (by decide)
  · cases checked

/-- The namespace whose first line is the first one of a text. -/
def NamespaceFrame.first (name : List Char) : NamespaceFrame :=
  { name := String.ofList name, start := {}, annotations := [], before := [] }

/-- At the start of a text the line opens the namespace. -/
theorem step_namespaceLine {name : List Char}
    (accepted : Line.namespaceHeader? (namespaceLine name) = some name) :
    (ReaderState.step dialect {} ⟨0, namespaceLine name⟩).result = .ok { frames := [.first name] } := by
  have code : SourceLine.code ⟨0, namespaceLine name⟩ = namespaceLine name := by
    rw [SourceLine.code, splitComment_namespaceLine accepted]
  have bare : SourceLine.trailing? ⟨0, namespaceLine name⟩ = none := by
    rw [SourceLine.trailing?, splitComment_namespaceLine accepted]
    rfl
  have isCode : ReaderState.step dialect {} ⟨0, namespaceLine name⟩ =
      ReaderState.statementLine dialect {} ⟨0, namespaceLine name⟩ := rfl
  have notAnnotation : Line.annotationName? (namespaceLine name) = none := rfl
  have noEnd : Line.blockEnd? (namespaceLine name) = none := rfl
  have noFunction : Line.functionHeader? (namespaceLine name) = none := rfl
  have notStarted : Line.startsFunction (namespaceLine name) = false := rfl
  have word : Line.declarationWord? (namespaceLine name) = some "namespace".toList := rfl
  have opens : ReaderState.declare {} ⟨0, namespaceLine name⟩ "namespace".toList =
      .ok { frames := [.first name] } := by
    simp only [ReaderState.declare, code, accepted, ReaderState.openNamespace, bare]
    rfl
  rw [isCode]
  simp only [ReaderState.statementLine, code, notAnnotation, noEnd, noFunction, notStarted, word,
    opens, Bool.false_eq_true, if_false, Outcome.feature_result]
  rfl

/-- The last line closes the namespace around the statements of a text. -/
theorem step_endNamespace_first {s : ReaderState} {name : List Char}
    (atStatements : s.focus = .statements) (only : s.frames = [.first name]) (index : Nat) :
    ∃ t, (s.step dialect ⟨index, endLine .ofNamespace⟩).result = .ok t ∧
      t.finish = .ok [.namespaceDecl
        { name := String.ofList name, placement := { range := ⟨{}, ⟨index, 13⟩⟩ } }
        s.closeRun.items.reverse] := by
  obtain ⟨-, -, notAnnotation, ends⟩ := endLine_recognised .ofNamespace
  obtain ⟨frames, items, focus, run, pending⟩ := s
  dsimp only at atStatements only
  subst atStatements only
  rw [ReaderState.step_endLine index _ rfl]
  cases run <;>
    simp only [ReaderState.closeRun, ReaderState.pushComment, ReaderState.statementLine,
      notAnnotation, SourceLine.code, ends, ReaderState.endNamespace, if_true] <;>
    exact ⟨_, rfl, rfl⟩

/-- Between the first and the last line of a namespace a text that can be read gives the body of the
namespace, in both dialects. -/
theorem wrapped_text_nests (dialect : Dialect) (name : List Char)
    (accepted : Line.namespaceHeader? (namespaceLine name) = some name) (lines : List (List Char))
    (statements : List Statement)
    (read : (readLines dialect lines).result = .ok statements) :
    (readLines dialect (namespaceLine name :: lines ++ [endLine .ofNamespace])).result =
      .ok [.namespaceDecl
        { name := String.ofList name
          placement := { range := ⟨⟨0, 0⟩, ⟨lines.length + 1, 13⟩⟩, annotations := [] } }
        (statements.map (Statement.shift 1))] := by
  obtain ⟨s, readBody, finished⟩ := readLines_ok read
  obtain ⟨atStatements, outermost, items⟩ := ReaderState.atStatements_of_finish finished
  -- One line further down the reader goes through the moved states.
  have below : (readFrom dialect 1 {} lines).result = .ok (s.below 1 []) := by
    have moved := readFrom_below dialect 1 [] lines 0 {}
    rw [Nat.zero_add, show ReaderState.below 1 [] {} = {} from rfl] at moved
    rw [moved, Outcome.shift, readBody]
  -- The namespace around the text makes no difference to it.
  have inside : (readFrom dialect 1 { frames := [.first name] } lines).result =
      .ok ((s.below 1 []).recast id [.first name]) := by
    have same := @readFrom_recast dialect id [.first name] 0 (fun _ _ => rfl) lines 1 {}
      (fun _ _ _ => Nat.zero_le _) (Nat.zero_le _) (Or.inr ⟨_, below⟩)
    have result := congrArg Outcome.result same
    rw [Outcome.map, below] at result
    exact result
  have closed : ((s.below 1 []).recast id [.first name]).closeRun.items.reverse =
      statements.map (Statement.shift 1) := by
    have moved : (s.below 1 []).closeRun.items = s.closeRun.items.map (Statement.shift 1) := by
      rw [ReaderState.closeRun_below, ReaderState.below, itemsBelow, ite_self, List.append_nil]
    rw [ReaderState.closeRun_recast, ReaderState.recast, moved, funext Statement.recast_id,
      List.map_id', ← List.map_reverse, items]
  have opened : (readFrom dialect 0 {} (namespaceLine name :: lines)).result =
      .ok ((s.below 1 []).recast id [.first name]) := by
    simp only [readFrom, Outcome.andThen, step_namespaceLine accepted]
    exact inside
  obtain ⟨t, ended, nested⟩ :=
    @step_endNamespace_first dialect ((s.below 1 []).recast id [.first name]) name
    (by rw [ReaderState.recast, ReaderState.below, atStatements]; rfl)
    (by rw [ReaderState.recast, ReaderState.below, outermost]; rfl) (lines.length + 1)
  have all : (readFrom dialect 0 {} (namespaceLine name :: lines ++ [endLine .ofNamespace])).result =
      .ok t := by
    rw [readFrom_ok_append opened, List.length_cons, Nat.zero_add]
    simp only [readFrom, Outcome.andThen, ended]
    rfl
  rw [closed] at nested
  rw [readLines_result, all]
  exact nested

/-- A text that ends in a comment and an annotation, with a namespace of its own, inside a namespace. -/
theorem namespace_in_namespace :
    let lines := ["namespace b.c", "end namespace ' c", "' last", "@note"].map String.toList
    ∃ statements, (readLines .brightScript lines).result = .ok statements ∧
      (readLines .brightScript (namespaceLine "A.x".toList :: lines ++ [endLine .ofNamespace])).result =
      .ok [.namespaceDecl { name := "A.x", placement := { range := ⟨⟨0, 0⟩, ⟨5, 13⟩⟩ } }
        (statements.map (Statement.shift 1))] := by
  intro lines
  refine ⟨[.namespaceDecl { name := "b.c", placement := { range := ⟨⟨0, 0⟩, ⟨1, 17⟩⟩ } } [],
    .comment { text := "' last", range := ⟨⟨2, 0⟩, ⟨2, 6⟩⟩ }], by rfl, ?_⟩
  exact wrapped_text_nests .brightScript "A.x".toList (by decide) lines _ (by rfl)

end BrightDoc
