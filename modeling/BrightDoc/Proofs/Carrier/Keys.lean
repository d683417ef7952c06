import BrightDoc.Converter
import BrightDoc.Proofs.Carrier.Introduced

/-! # The names that decide what is shown

Which entries of a tree are shown depends on whether the namespaces and the module that the tree itself
declares have been declared before, and on nothing else. What they are can be told from the tree. -/

namespace BrightDoc

open BrightDoc.Carrier

/-- The same ones of the given keys have been declared. -/
structure Declared.AgreeOn (spaces modules : List String) (first second : Declared) : Prop where
  namespaces : ∀ key ∈ spaces, (key ∈ first.namespaces ↔ key ∈ second.namespaces)
  modules : ∀ key ∈ modules, (key ∈ first.modules ↔ key ∈ second.modules)

theorem Declared.mem_addModule {declared : Declared} {name key : String} :
    key ∈ (declared.addModule name).modules ↔ key ∈ declared.modules ∨ key ∈ [moduleKey name] := by
  unfold addModule
  split
  · rename_i known
    have member : moduleKey name ∈ declared.modules := by simpa [hasModule] using known
    refine (or_iff_left_of_imp ?_).symm
    intro same
    rw [List.mem_singleton.mp same]
    exact member
  · rw [List.mem_cons, or_comm, List.mem_singleton]

mutual

/-- The paths of the namespaces that a statement in the given namespace declares, with all their
beginnings. -/
def Statement.namespacePaths (space : String) : Statement → List String
  | .namespaceDecl head body =>
    let around : Scope := { inSpace := space }
    (chain head.name).map around.pathTo ++ namespacePathsOf (around.pathTo head.name) body
  | _ => []

/-- The paths of the namespaces that some statements declare, in source order. -/
def namespacePathsOf (space : String) : List Statement → List String
  | [] => []
  | statement :: more => statement.namespacePaths space ++ namespacePathsOf space more

end

namespace Carrier

/-- The modules that have been declared after some entries. -/
theorem mem_settle_modules {declared : Declared} {entries : List Entry} {key : String} :
    key ∈ (settle declared entries).2.modules ↔
      key ∈ declared.modules ∨ key ∈ moduleKeys entries := by
  induction entries generalizing declared with
  | nil => exact (or_iff_left List.not_mem_nil).symm
  | cons entry more ih =>
    have first : key ∈ (settle declared [entry]).2.modules ↔
        key ∈ declared.modules ∨ key ∈ moduleKeys [entry] := by
      cases entry with
      | declaration space pieces => exact (or_iff_left List.not_mem_nil).symm
      | nothing => exact (or_iff_left List.not_mem_nil).symm
      | moduleBlock name => exact Declared.mem_addModule
      | namespaceBlock path body stub =>
        have same : (declared.addNamespace path).modules = declared.modules := by
          unfold Declared.addNamespace
          split <;> rfl
        exact same ▸ (or_iff_left List.not_mem_nil).symm
    rw [settle_cons, ih, first, or_assoc, ← List.mem_append, ← moduleKeys_append]
    rfl

/-- Agreement lasts while the same entries are settled. -/
theorem agreeOn_settle {first second : Declared} {spaces modules : List String}
    (agree : first.AgreeOn spaces modules second) (entries : List Entry) :
    (settle first entries).2.AgreeOn spaces modules (settle second entries).2 := by
  refine ⟨?_, ?_⟩
  · intro key member
    rw [mem_settle_namespaces, mem_settle_namespaces, agree.namespaces key member]
  · intro key member
    rw [mem_settle_modules, mem_settle_modules, agree.modules key member]

/-- The entries that stay are the same, if the keys among them that have been declared are the same. -/
theorem settle_of_agreeOn {first second : Declared} {entries : List Entry}
    (agree : first.AgreeOn (namespaceKeys entries) (moduleKeys entries) second) :
    (settle first entries).1 = (settle second entries).1 := by
  induction entries generalizing first second with
  | nil => rfl
  | cons entry more ih =>
    have parts : first.AgreeOn (namespaceKeys [entry] ++ namespaceKeys more)
        (moduleKeys [entry] ++ moduleKeys more) second := by
      rw [← namespaceKeys_append, ← moduleKeys_append]
      exact agree
    have here : (settle first [entry]).1 = (settle second [entry]).1 := by
      cases entry with
      | declaration space pieces => rfl
      | nothing => rfl
      | moduleBlock name =>
        have same : first.hasModule name = second.hasModule name := by
          rw [Declared.hasModule, Declared.hasModule, Bool.eq_iff_iff, List.contains_iff_mem,
            List.contains_iff_mem]
          exact agree.modules _ List.mem_cons_self
        simp only [settle, same]
      | namespaceBlock path body stub =>
        have same : first.hasNamespace path = second.hasNamespace path := by
          rw [Declared.hasNamespace, Declared.hasNamespace, Bool.eq_iff_iff, List.contains_iff_mem,
            List.contains_iff_mem]
          exact agree.namespaces _ List.mem_cons_self
        simp only [settle, same]
    have rest : first.AgreeOn (namespaceKeys more) (moduleKeys more) second :=
      ⟨fun key member => parts.namespaces key (List.mem_append_right _ member),
        fun key member => parts.modules key (List.mem_append_right _ member)⟩
    rw [settle_cons first entry more, settle_cons second entry more, here,
      ih (agreeOn_settle rest [entry])]

theorem namespaceKeys_orNothing (entries : List Entry) :
    namespaceKeys (orNothing entries) = namespaceKeys entries := by
  cases entries <;> rfl

theorem moduleKeys_orNothing (entries : List Entry) :
    moduleKeys (orNothing entries) = moduleKeys entries := by
  cases entries <;> rfl

theorem moduleKeys_namespaceEntries (escape : Bool) (scope : Scope) (comment : Option Comment)
    (name : String) : moduleKeys (namespaceEntries escape scope comment name) = [] := by
  rw [moduleKeys, List.filterMap_eq_nil_iff]
  intro entry member
  obtain ⟨⟨part, index⟩, -, rfl⟩ := List.mem_map.mp member
  rfl

section Trees

variable (escape : Bool)

mutual

/-- The entries of a statement declare its namespaces, and no module. -/
theorem keys_planStatement (scope : Scope) (comments : List Comment) : (statement : Statement) →
    namespaceKeys (planStatement escape scope comments statement) =
        (statement.namespacePaths scope.inSpace).map Declared.namespaceKey ∧
      moduleKeys (planStatement escape scope comments statement) = []
  | .comment c => ⟨rfl, rfl⟩
  | .function f => ⟨rfl, rfl⟩
  | .classDecl c => ⟨rfl, rfl⟩
  | .interfaceDecl i => ⟨rfl, rfl⟩
  | .enumDecl e => ⟨rfl, rfl⟩
  | .constDecl c => ⟨rfl, rfl⟩
  | .namespaceDecl head body => by
    have inner := keys_planEach { scope with inSpace := scope.pathTo head.name }
      (body.filterMap Statement.comment?) body
    have opened := namespaceKeys_entriesFrom escape scope (head.placement.comment? comments) 0
      (chain head.name)
    rw [planStatement, namespaceKeys_append, moduleKeys_append, namespaceKeys_orNothing,
      moduleKeys_orNothing, inner.1, inner.2, moduleKeys_namespaceEntries]
    refine ⟨?_, rfl⟩
    rw [Statement.namespacePaths, List.map_append, List.map_map]
    exact congrArg (· ++ _) opened

/-- So do the entries of some statements. -/
theorem keys_planEach (scope : Scope) (comments : List Comment) : (statements : List Statement) →
    namespaceKeys (planEach escape scope comments statements) =
        (namespacePathsOf scope.inSpace statements).map Declared.namespaceKey ∧
      moduleKeys (planEach escape scope comments statements) = []
  | [] => ⟨rfl, rfl⟩
  | statement :: more => by
    have first := keys_planStatement scope comments statement
    have rest := keys_planEach scope comments more
    rw [planEach, namespaceKeys_append, moduleKeys_append, first.1, first.2, rest.1, rest.2,
      namespacePathsOf, List.map_append]
    exact ⟨rfl, rfl⟩

end

end Trees

end Carrier

end BrightDoc
