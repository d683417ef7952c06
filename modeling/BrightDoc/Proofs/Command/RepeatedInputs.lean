import BrightDoc.Proofs.Command.ArgumentOrder
import Mathlib.Data.List.Pairwise

/-! # Files that are named twice

Arguments can name a file more than once. The paths are sorted and those with the same steps are dropped, so
each file is converted once as long as all paths to it have the same steps. A dot at the start of a path is
a step of its own: `./a.bs` and `a.bs` lead to one file and are both kept. Among relative paths that do not go
up, nothing else is repeated. -/

namespace BrightDoc

/-- The name that a step goes to, if it goes to one. -/
def Component.name? : Component → Option String
  | named name => some name
  | _ => none

namespace Path

/-- The names that some steps go to. -/
def names (steps : List Component) : List String :=
  steps.filterMap Component.name?

/-- The steps neither start at the root nor go up. -/
def StaysBelow (steps : List Component) : Prop :=
  .root ∉ steps ∧ .up ∉ steps

instance (steps : List Component) : Decidable (StaysBelow steps) :=
  inferInstanceAs (Decidable (_ ∧ _))

/-- Steps that stay below a place lead to the names that they go to. -/
theorem follow_of_staysBelow {steps : List Component} (below : StaysBelow steps) (place : List String) :
    follow place steps = place ++ names steps := by
  induction steps generalizing place with
  | nil => rw [follow, names, List.filterMap_nil, List.append_nil]
  | cons step steps ih =>
    obtain ⟨noRoot, noUp⟩ := below
    rw [List.mem_cons, not_or] at noRoot noUp
    have more := ih ⟨noRoot.2, noUp.2⟩
    cases step with
    | root => exact absurd rfl noRoot.1
    | up => exact absurd rfl noUp.1
    | here => exact more place
    | named name =>
      rw [follow, more, List.append_assoc]
      rfl

theorem eq_map_names {steps : List Component} (named : ∀ step ∈ steps, ∃ name, step = .named name) :
    steps = (names steps).map .named := by
  induction steps with
  | nil => rfl
  | cons step steps ih =>
    rw [List.forall_mem_cons] at named
    obtain ⟨⟨name, rfl⟩, more⟩ := named
    exact congrArg (.named name :: ·) (ih more)

/-- A dot is a step only at the start of a path. -/
theorem components_cases (path : String) :
    ∃ segments : List String, components path = segments.filterMap innerStep? ∨
      components path = .here :: segments.filterMap innerStep? ∨
      components path = .root :: segments.filterMap innerStep? := by
  rw [components.eq_def]
  split
  · exact ⟨[], Or.inl rfl⟩
  · exact ⟨[], Or.inl rfl⟩
  · exact ⟨_, Or.inr (Or.inr rfl)⟩
  · exact ⟨_, Or.inr (Or.inl rfl)⟩
  · exact ⟨_, Or.inl rfl⟩

/-- A path that stays below goes to its names, after a dot that it may start with. -/
theorem components_of_staysBelow {path : String} (below : StaysBelow (components path)) :
    components path = (names (components path)).map .named ∨
      components path = .here :: (names (components path)).map .named := by
  have named : ∀ {segments : List String}, .up ∉ segments.filterMap innerStep? →
      ∀ step ∈ segments.filterMap innerStep?, ∃ name, step = .named name := by
    intro segments noUp step member
    obtain ⟨segment, -, found⟩ := List.mem_filterMap.mp member
    rw [innerStep?.eq_def] at found
    split at found
    · cases found
    · cases found
    · cases found
      exact absurd member noUp
    · cases found
      exact ⟨_, rfl⟩
  obtain ⟨noRoot, noUp⟩ := below
  obtain ⟨segments, bare | dotted | rooted⟩ := components_cases path
  · rw [bare] at noUp ⊢
    exact Or.inl (eq_map_names (named noUp))
  · rw [dotted, List.mem_cons, not_or] at noUp
    rw [dotted]
    exact Or.inr (congrArg (.here :: ·) (eq_map_names (named noUp.2)))
  · rw [rooted] at noRoot
    exact absurd List.mem_cons_self noRoot

/-- Of two paths that stay below and go to the same names, one may have a dot before them. -/
theorem components_of_names_eq {first second : String} (below : StaysBelow (components first))
    (belowToo : StaysBelow (components second))
    (same : names (components first) = names (components second)) :
    components first = components second ∨ components first = .here :: components second ∨
      components second = .here :: components first := by
  rcases components_of_staysBelow below with bare | dotted
  · rcases components_of_staysBelow belowToo with bare' | dotted'
    · exact Or.inl (by rw [bare, bare', same])
    · exact Or.inr (Or.inr (by rw [bare, dotted', same]))
  · rcases components_of_staysBelow belowToo with bare' | dotted'
    · exact Or.inr (Or.inl (by rw [dotted, bare', same]))
    · exact Or.inl (by rw [dotted, dotted', same])

end Path

namespace FileTree

/-- No two of the paths lead to the same place. -/
def LeadApart (t : FileTree) (paths : List String) : Prop :=
  paths.Pairwise fun first second => t.locate first ≠ t.locate second

variable {t : FileTree} {path : String} {paths : List String}

theorem locate_of_isFile (isFile : t.isFile path = true) :
    t.locate path = .ok (Path.follow t.home (Path.components path)) := by
  obtain ⟨place, content, located, -⟩ := isFile_iff.mp isFile
  rw [located, ← locate_eq_follow located]

/-- Sorted paths to files lead to different places if all paths to one place have the same steps. -/
theorem leadApart_sorted_iff (files : ∀ path ∈ paths, t.isFile path = true) :
    t.LeadApart (Path.sorted paths) ↔
      ∀ first ∈ paths, ∀ second ∈ paths, t.locate first = t.locate second →
        Path.components first = Path.components second := by
  constructor
  · intro apart first isFirst second isSecond same
    by_contra differ
    -- Both stay, or paths with the same steps in their place.
    have stays : ∀ path ∈ paths, ∃ kept ∈ Path.sorted paths,
        Path.components kept = Path.components path ∧ t.locate kept = t.locate path := by
      intro path member
      have steps := (Path.mem_components_sorted paths _).mpr (List.mem_map_of_mem member)
      obtain ⟨kept, inside, equal⟩ := List.mem_map.mp steps
      refine ⟨kept, inside, equal, ?_⟩
      rw [locate_of_isFile (files kept (Path.mem_of_mem_sorted inside)), equal,
        locate_of_isFile (files path member)]
    obtain ⟨kept, inside, steps, place⟩ := stays first isFirst
    obtain ⟨other, insideToo, stepsToo, placeToo⟩ := stays second isSecond
    have distinct : kept ≠ other := by
      rintro rfl
      exact differ (steps.symm.trans stepsToo)
    have symmetric : Std.Symm fun first second => t.locate first ≠ t.locate second :=
      ⟨fun _ _ => Ne.symm⟩
    exact apart.forall inside insideToo distinct (by rw [place, placeToo, same])
  · intro same
    refine (Path.pairwise_sorted paths).imp_of_mem ?_
    intro first second isFirst isSecond before place
    rw [Path.Before, same first (Path.mem_of_mem_sorted isFirst) second
      (Path.mem_of_mem_sorted isSecond) place] at before
    exact irrefl _ before

/-- Paths that stay below are told apart by their places, but for a dot at their start. -/
theorem leadApart_sorted_iff_of_staysBelow (files : ∀ path ∈ paths, t.isFile path = true)
    (below : ∀ path ∈ paths, Path.StaysBelow (Path.components path)) :
    t.LeadApart (Path.sorted paths) ↔
      ∀ first ∈ paths, ∀ second ∈ paths,
        Path.components first ≠ .here :: Path.components second := by
  have located : ∀ path ∈ paths, t.locate path = .ok (t.home ++ Path.names (Path.components path)) := by
    intro path member
    rw [locate_of_isFile (files path member), Path.follow_of_staysBelow (below path member)]
  rw [leadApart_sorted_iff files]
  constructor
  · intro same first isFirst second isSecond dotted
    have equal : Path.components first = Path.components second := by
      apply same first isFirst second isSecond
      rw [located first isFirst, located second isSecond, dotted]
      rfl
    rw [equal] at dotted
    exact List.cons_ne_self _ _ dotted.symm
  · intro undotted first isFirst second isSecond place
    rw [located first isFirst, located second isSecond, Except.ok.injEq,
      List.append_cancel_left_eq] at place
    rcases Path.components_of_names_eq (below first isFirst) (below second isSecond) place with
      same | dotted | dotted
    · exact same
    · exact absurd dotted (undotted first isFirst second isSecond)
    · exact absurd dotted (undotted second isSecond first isFirst)

end FileTree

namespace Command

/-- The files that are converted for some arguments lead to different places exactly if all the paths that the
arguments name for one place have the same steps. Where they name relative paths only that do not go up, this
is so exactly if no two of them differ by a dot at the start, as `./a.bs` and `a.bs` do. -/
theorem inputs_converted_once_iff (libraries : Libraries) {t : FileTree}
    {arguments paths : List String} (expanded : (expand libraries t arguments).2 = .ok paths) :
    (t.LeadApart (Path.sorted paths) ↔
      ∀ first ∈ paths, ∀ second ∈ paths, t.locate first = t.locate second →
        Path.components first = Path.components second) ∧
    ((∀ path ∈ paths, Path.StaysBelow (Path.components path)) →
      (t.LeadApart (Path.sorted paths) ↔
        ∀ first ∈ paths, ∀ second ∈ paths,
          Path.components first ≠ .here :: Path.components second)) := by
  have files : ∀ path ∈ paths, t.isFile path = true := by
    have named := expand_eq libraries t arguments
    split at named
    · obtain ⟨failure, failed⟩ := named
      cases expanded.symm.trans failed
    · cases expanded.symm.trans named
      intro path member
      obtain ⟨argument, -, found⟩ := List.mem_flatMap.mp member
      exact isFile_of_mem_named found
  exact ⟨FileTree.leadApart_sorted_iff files, FileTree.leadApart_sorted_iff_of_staysBelow files⟩

/-- A file next to a directory with another one. -/
def fileAndLibrary : FileTree where
  nodes := [(["a.bs"], .file []), (["lib"], .directory), (["lib", "b.bs"], .file [])]

/-- Two files, each of them named in two ways. -/
theorem file_and_library_converted_once :
    let arguments := ["a.bs", "*.bs", "lib", "lib/./b.bs"]
    let paths := ["a.bs", "a.bs", "lib/b.bs", "lib/./b.bs"]
    (expand {} fileAndLibrary arguments).2 = .ok paths ∧
      fileAndLibrary.LeadApart (Path.sorted paths) := by
  intro arguments paths
  have expanded : (expand {} fileAndLibrary arguments).2 = .ok paths := by rfl
  refine ⟨expanded, ((inputs_converted_once_iff {} expanded).2 ?_).mpr ?_⟩
  · decide +kernel
  · decide +kernel

/-- A file that is named with a dot and without it is converted twice. -/
theorem dotted_input_converted_twice :
    let arguments := ["./a.bs", "a.bs"]
    (expand {} fileAndLibrary arguments).2 = .ok arguments ∧ Path.sorted arguments = arguments ∧
      fileAndLibrary.locate "./a.bs" = fileAndLibrary.locate "a.bs" ∧
      ∀ path ∈ ["out/a.js", "out/a_2.js"],
        (convertFiles {} fileAndLibrary {} "out" arguments).tree.isFile path = true := by
  intro arguments
  have sorted : Path.sorted arguments = arguments := by
    rw [Path.sorted, List.mergeSort_of_pairwise (by decide +kernel)]
    decide +kernel
  let ready := fileAndLibrary.set ["out"] .directory
  let start : Progress := { tree := ready, converter := {} }
  have written : ∀ path ∈ ["out/a.js", "out/a_2.js"],
      (start.convertInputs "out" arguments).1.tree.isFile path = true := by
    decide +kernel
  have made : fileAndLibrary.makeDirectories "out" = .ok ready := by rfl
  have expanded : expand {} ready arguments = ([], .ok arguments) := by rfl
  refine ⟨by rfl, sorted, by rfl, ?_⟩
  rw [convertFiles_of_expand {} made expanded, sorted]
  exact written

end Command

end BrightDoc
