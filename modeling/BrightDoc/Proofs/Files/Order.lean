import BrightDoc.Files.Path
import Mathlib.Data.List.Sort

/-! # The order of paths

Paths are compared by their steps, and two paths that neither comes before the other have the same steps.
So sorting some paths and leaving out repeats gives a list that goes up strictly. Its steps are told by
the paths alone, in whatever order and however often they are given, and a part of such a list stays as
it is when it is sorted once more. -/

namespace BrightDoc

theorem Component.order_eq :
    Component.order = compareLex (compareOn Component.rank) (compareOn Component.name) :=
  rfl

instance : Std.TransCmp Component.order := by
  rw [Component.order_eq]
  infer_instance

theorem Component.eq_of_rank_of_name {a b : Component} (ranks : a.rank = b.rank)
    (names : a.name = b.name) : a = b := by
  cases a <;> cases b <;> cases ranks
  · rfl
  · rfl
  · rfl
  · cases names
    rfl

instance : Std.LawfulEqCmp Component.order where
  eq_of_compare := by
    intro a b same
    obtain ⟨ranks, names⟩ := Ordering.then_eq_eq.mp same
    exact Component.eq_of_rank_of_name (Std.LawfulEqCmp.eq_of_compare ranks)
      (Std.LawfulEqCmp.eq_of_compare names)

namespace Path

theorem orderSteps_eq (first second : List Component) :
    orderSteps first second = List.compareLex Component.order first second := by
  induction first generalizing second with
  | nil => cases second <;> rfl
  | cons a as ih =>
    cases second with
    | nil => rfl
    | cons b bs =>
      rw [orderSteps, ih, List.compareLex_cons_cons]

instance : Std.TransCmp orderSteps := by
  rw [funext₂ orderSteps_eq]
  infer_instance

instance : Std.LawfulEqCmp orderSteps := by
  rw [funext₂ orderSteps_eq]
  infer_instance

/-- Whether some steps come before others. -/
def StepsBefore (first second : List Component) : Prop :=
  orderSteps first second = .lt

/-- Whether a path comes before another one, by their steps. -/
def Before (first second : String) : Prop :=
  StepsBefore (components first) (components second)

instance : IsStrictOrder (List Component) StepsBefore where
  irrefl := by
    intro steps before
    have equal : orderSteps steps steps = .eq := Std.ReflCmp.compare_self
    cases equal.symm.trans before
  trans := fun _ _ _ => Std.TransCmp.lt_trans

theorem Before.trans {first second third : String} (lower : Before first second)
    (upper : Before second third) : Before first third :=
  Std.TransCmp.lt_trans lower upper

theorem le_total (first second : String) : (le first second || le second first) = true := by
  have swap : orderSteps (components first) (components second) =
      (orderSteps (components second) (components first)).swap := Std.OrientedCmp.eq_swap
  rw [le, le, swap]
  cases orderSteps (components second) (components first) <;> rfl

theorem le_trans (first second third : String) (lower : le first second = true)
    (upper : le second third = true) : le first third = true :=
  Std.TransCmp.isLE_trans lower upper

/-- Of two paths in order, the first comes before the second unless they have the same steps. -/
theorem same_or_before {first second : String} (ordered : le first second = true) :
    components first = components second ∨ Before first second := by
  rw [le, Ordering.isLE_iff_eq_lt_or_eq_eq] at ordered
  exact ordered.symm.imp_left Std.LawfulEqCmp.eq_of_compare

theorem le_of_before {first second : String} (before : Before first second) :
    le first second = true := by
  rw [le, show orderSteps _ _ = .lt from before]
  rfl

/-- Of a run of paths with the same steps, the first one stays. -/
theorem dropRepeats_cons (first : String) (more : List String) :
    ∃ rest, dropRepeats (first :: more) = first :: rest := by
  cases more with
  | nil => exact ⟨[], rfl⟩
  | cons second more =>
    rw [dropRepeats]
    split
    · exact ⟨_, rfl⟩
    · split
      · exact ⟨_, rfl⟩
      · exact ⟨_, rfl⟩

theorem dropRepeats_cons_cons {first second : String} {more rest : List String}
    (later : dropRepeats (second :: more) = second :: rest) :
    dropRepeats (first :: second :: more) =
      if same first second then first :: rest else first :: second :: rest := by
  rw [dropRepeats, later]

theorem dropRepeats_sublist (paths : List String) : (dropRepeats paths).Sublist paths := by
  induction paths with
  | nil => exact List.Sublist.refl _
  | cons first more ih =>
    cases more with
    | nil => exact List.Sublist.refl _
    | cons second more =>
      obtain ⟨rest, later⟩ := dropRepeats_cons second more
      rw [dropRepeats_cons_cons later]
      rw [later] at ih
      split
      · exact ((List.sublist_cons_self _ _).trans ih).cons_cons first
      · exact ih.cons_cons first

/-- No steps are lost with the repeats. -/
theorem mem_components_dropRepeats (paths : List String) (steps : List Component) :
    steps ∈ (dropRepeats paths).map components ↔ steps ∈ paths.map components := by
  induction paths with
  | nil => rfl
  | cons first more ih =>
    cases more with
    | nil => rfl
    | cons second more =>
      obtain ⟨rest, later⟩ := dropRepeats_cons second more
      rw [later] at ih
      rw [dropRepeats_cons_cons later, List.map_cons, List.mem_cons, ← ih]
      split
      · rename_i repeated
        have equal : components first = components second := by simpa [same] using repeated
        simp [equal]
      · simp

theorem pairwise_dropRepeats {paths : List String}
    (ordered : paths.Pairwise fun first second => le first second = true) :
    (dropRepeats paths).Pairwise Before := by
  induction paths with
  | nil => exact List.Pairwise.nil
  | cons first more ih =>
    cases more with
    | nil => exact List.pairwise_singleton _ _
    | cons second more =>
      obtain ⟨rest, later⟩ := dropRepeats_cons second more
      obtain ⟨above, ordered⟩ := List.pairwise_cons.mp ordered
      have strict := ih ordered
      rw [later] at strict
      rw [dropRepeats_cons_cons later]
      split
      · rename_i repeated
        have equal : components first = components second := by simpa [same] using repeated
        refine List.pairwise_cons.mpr ⟨?_, (List.pairwise_cons.mp strict).2⟩
        intro path member
        rw [Before, equal]
        exact (List.pairwise_cons.mp strict).1 path member
      · rename_i apart
        have before : Before first second :=
          (same_or_before (above second List.mem_cons_self)).resolve_left (by simpa [same] using apart)
        refine List.pairwise_cons.mpr ⟨?_, strict⟩
        intro path member
        rcases List.mem_cons.mp member with rfl | member
        · exact before
        · exact before.trans ((List.pairwise_cons.mp strict).1 path member)

/-- Sorted paths go up strictly. -/
theorem pairwise_sorted (paths : List String) : (sorted paths).Pairwise Before :=
  pairwise_dropRepeats (List.pairwise_mergeSort le_trans le_total paths)

theorem mem_of_mem_sorted {paths : List String} {path : String} (member : path ∈ sorted paths) :
    path ∈ paths :=
  List.mem_mergeSort.mp ((dropRepeats_sublist _).subset member)

theorem mem_components_sorted (paths : List String) (steps : List Component) :
    steps ∈ (sorted paths).map components ↔ steps ∈ paths.map components := by
  rw [sorted, mem_components_dropRepeats]
  simp only [List.mem_map, List.mem_mergeSort]

/-- The steps of sorted paths are told by which paths they are. -/
theorem components_sorted_eq {first second : List String}
    (members : ∀ path, path ∈ first ↔ path ∈ second) :
    (sorted first).map components = (sorted second).map components := by
  have strict : ∀ paths : List String, ((sorted paths).map components).Pairwise StepsBefore :=
    fun paths => List.pairwise_map.mpr (pairwise_sorted paths)
  refine (strict first).eq_of_mem_iff (strict second) ?_
  intro steps
  rw [mem_components_sorted, mem_components_sorted]
  simp only [List.mem_map, members]

theorem dropRepeats_of_pairwise {paths : List String} (strict : paths.Pairwise Before) :
    dropRepeats paths = paths := by
  induction paths with
  | nil => rfl
  | cons first more ih =>
    cases more with
    | nil => rfl
    | cons second more =>
      obtain ⟨above, strict⟩ := List.pairwise_cons.mp strict
      rw [dropRepeats_cons_cons (ih strict), if_neg]
      intro repeated
      have equal : components first = components second := by simpa [same] using repeated
      have before : Before first second := above second List.mem_cons_self
      rw [Before, equal] at before
      exact irrefl _ before

/-- Paths that go up strictly stay as they are. -/
theorem sorted_of_pairwise {paths : List String} (strict : paths.Pairwise Before) :
    sorted paths = paths := by
  rw [sorted, List.mergeSort_of_pairwise (strict.imp le_of_before), dropRepeats_of_pairwise strict]

end Path

end BrightDoc
