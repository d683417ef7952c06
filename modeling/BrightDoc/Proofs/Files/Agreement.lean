import BrightDoc.Files.Glob
import BrightDoc.Proofs.Files.Writing

/-! # Trees with the same files, and paths with the same steps

Two trees agree if the same stands at every place of them, whatever order their nodes are listed in.
Such trees answer every question about a path alike: a path leads to the same place, a directory has the
same names in it, and a pattern matches the same paths. The same change ends in the same error or in
trees that agree again.

The place that a path leads to is told by its steps, so paths that are written differently and have the
same steps lead to the same file, as far as they lead to one. -/

namespace BrightDoc

namespace Path

/-- The place that some steps lead to. -/
def follow (place : List String) : List Component → List String
  | [] => place
  | .root :: more => follow [] more
  | .here :: more => follow place more
  | .up :: more => follow place.dropLast more
  | .named name :: more => follow (place ++ [name]) more

end Path

namespace FileTree

/-- Paths start from the same place, and the same stands at every place. -/
structure Agree (t u : FileTree) : Prop where
  home : u.home = t.home
  nodes : ∀ place, u.node? place = t.node? place

/-- The results of the same change: the same error, or trees that agree. -/
inductive AgreeResult : Except FileError FileTree → Except FileError FileTree → Prop
  | error (e : FileError) : AgreeResult (.error e) (.error e)
  | ok {t u : FileTree} (agree : t.Agree u) : AgreeResult (.ok t) (.ok u)

theorem mem_below_iff (t : FileTree) (place way : List String) :
    way ∈ t.below place ↔ way ≠ [] ∧ (t.node? (place ++ way)).isSome = true := by
  have listed : (∃ entry ∈ t.nodes, place.isPrefixOf? entry.1 = some way) ↔
      (t.nodes.lookup (place ++ way)).isSome = true := by
    rw [List.lookup_isSome_iff]
    constructor
    · rintro ⟨entry, member, found⟩
      exact ⟨entry, member, by simpa using List.isPrefixOf?_eq_some_iff_append_eq.mp found⟩
    · rintro ⟨entry, member, same⟩
      exact ⟨entry, member, List.isPrefixOf?_eq_some_iff_append_eq.mpr (beq_iff_eq.mp same)⟩
  rw [below, List.mem_filter, List.mem_filterMap, listed, and_comm]
  by_cases here : way = []
  · simp [here]
  · have below : place ++ way ≠ [] := by simp [here]
    simp [here, node?, below]

theorem mem_names_iff (t : FileTree) (place : List String) (name : String) :
    name ∈ t.names place ↔ (t.node? (place ++ [name])).isSome = true := by
  rw [names, List.mem_filterMap]
  constructor
  · rintro ⟨way, member, found⟩
    split at found
    · cases found
      exact ((mem_below_iff t place [name]).mp member).2
    · cases found
  · intro stands
    exact ⟨[name], (mem_below_iff t place [name]).mpr ⟨List.cons_ne_nil _ _, stands⟩, rfl⟩

namespace Agree

theorem refl (t : FileTree) : t.Agree t :=
  ⟨rfl, fun _ => rfl⟩

variable {t u : FileTree}

theorem symm (agree : t.Agree u) : u.Agree t :=
  ⟨agree.home.symm, fun place => (agree.nodes place).symm⟩

theorem walk_eq (agree : t.Agree u) (place way : List String) : u.walk place way = t.walk place way := by
  induction way generalizing place with
  | nil => rfl
  | cons segment more ih => simp only [walk, agree.nodes, ih]

theorem locate_eq (agree : t.Agree u) (path : String) : u.locate path = t.locate path := by
  simp only [locate, agree.walk_eq, agree.home]

theorem find?_eq (agree : t.Agree u) (path : String) : u.find? path = t.find? path := by
  simp only [find?, agree.locate_eq, agree.nodes]

theorem isFile_eq (agree : t.Agree u) (path : String) : u.isFile path = t.isFile path := by
  simp only [isFile, agree.find?_eq]

theorem isDirectory_eq (agree : t.Agree u) (path : String) :
    u.isDirectory path = t.isDirectory path := by
  simp only [isDirectory, agree.find?_eq]

theorem hasPath_eq (agree : t.Agree u) (path : String) : u.hasPath path = t.hasPath path := by
  simp only [hasPath, agree.find?_eq]

theorem readText_eq (agree : t.Agree u) (path : String) : u.readText path = t.readText path := by
  simp only [readText, read, agree.locate_eq, agree.nodes]

theorem mem_below (agree : t.Agree u) (place way : List String) :
    way ∈ u.below place ↔ way ∈ t.below place := by
  rw [mem_below_iff, mem_below_iff, agree.nodes]

theorem mem_names (agree : t.Agree u) (place : List String) (name : String) :
    name ∈ u.names place ↔ name ∈ t.names place := by
  rw [mem_names_iff, mem_names_iff, agree.nodes]

theorem set (agree : t.Agree u) {place : List String} (below : place ≠ []) (node : Node) :
    (t.set place node).Agree (u.set place node) := by
  refine ⟨agree.home, ?_⟩
  intro other
  rw [node?_set below, node?_set below, agree.nodes]

theorem writeText (agree : t.Agree u) (path text : String) :
    AgreeResult (t.writeText path text) (u.writeText path text) := by
  unfold FileTree.writeText
  rw [agree.locate_eq]
  cases t.locate path with
  | error e => exact .error e
  | ok place =>
    dsimp only
    rw [agree.nodes]
    split
    · exact .error _
    · rename_i free
      refine .ok (agree.set ?_ _)
      rintro rfl
      exact free rfl

theorem makeDirectory (agree : t.Agree u) (path : String) :
    AgreeResult (t.makeDirectory path) (u.makeDirectory path) := by
  simp only [FileTree.makeDirectory, agree.home, agree.walk_eq, agree.nodes]
  split
  · split
    · exact .error _
    · exact .error _
  · split
    · exact .error _
    · split
      · exact .error _
      · exact .error _
      · split
        · exact .error _
        · exact .ok (agree.set (by simp) _)

theorem orDirectory (agree : t.Agree u) (path : String) (error : FileError) :
    AgreeResult (t.orDirectory path error) (u.orDirectory path error) := by
  unfold FileTree.orDirectory
  rw [agree.isDirectory_eq]
  split
  · exact .ok agree
  · exact .error error

theorem makeDirectoriesFrom (steps : List Component) :
    ∀ {t u : FileTree}, t.Agree u → ∀ path : String,
      AgreeResult (t.makeDirectoriesFrom path steps) (u.makeDirectoriesFrom path steps) := by
  induction steps with
  | nil => exact fun agree _ => .ok agree
  | cons step outer ih =>
    intro t u agree path
    rw [FileTree.makeDirectoriesFrom, FileTree.makeDirectoriesFrom]
    have made := agree.makeDirectory path
    generalize t.makeDirectory path = first at made
    generalize u.makeDirectory path = second at made
    cases made with
    | ok agree => exact .ok agree
    | error e =>
      cases e with
      | notFound =>
        dsimp only
        -- The way to the directory is made in both trees, and then the directory itself.
        have prepared : AgreeResult
            (if outer.isEmpty then .ok t
              else t.makeDirectoriesFrom (Path.ofComponents outer.reverse) outer)
            (if outer.isEmpty then .ok u
              else u.makeDirectoriesFrom (Path.ofComponents outer.reverse) outer) := by
          split
          · exact .ok agree
          · exact ih agree _
        generalize (if outer.isEmpty then Except.ok t
          else t.makeDirectoriesFrom (Path.ofComponents outer.reverse) outer) = first at prepared
        generalize (if outer.isEmpty then Except.ok u
          else u.makeDirectoriesFrom (Path.ofComponents outer.reverse) outer) = second at prepared
        cases prepared with
        | error e => exact .error e
        | @ok t u agree =>
          dsimp only
          have made := agree.makeDirectory path
          generalize t.makeDirectory path = first at made
          generalize u.makeDirectory path = second at made
          cases made with
          | ok agree => exact .ok agree
          | error e => exact agree.orDirectory path e
      | alreadyExists => exact agree.orDirectory path _
      | notDirectory => exact agree.orDirectory path _
      | isDirectory => exact agree.orDirectory path _
      | notText => exact agree.orDirectory path _

theorem makeDirectories (agree : t.Agree u) (path : String) :
    AgreeResult (t.makeDirectories path) (u.makeDirectories path) :=
  makeDirectoriesFrom _ agree path

end Agree

section Steps

variable {t : FileTree} {first second : String}

/-- A way that can be gone leads to where its steps lead. -/
theorem walk_eq_follow {place way there : List String} (found : t.walk place way = .ok there) :
    there = Path.follow place (way.filterMap Path.innerStep?) := by
  induction way generalizing place with
  | nil =>
    cases found
    rfl
  | cons segment more ih =>
    rw [walk] at found
    split at found
    · split at found
      · rename_i stays
        have skipped : Path.innerStep? segment = none := by
          rcases Bool.or_eq_true_iff.mp stays with empty | dot
          · rw [of_decide_eq_true empty]
            rfl
          · rw [of_decide_eq_true dot]
            rfl
        rw [List.filterMap_cons_none skipped]
        exact ih found
      · rename_i goes
        split at found
        · rename_i up
          have step : Path.innerStep? segment = some .up := by
            rw [up]
            rfl
          rw [List.filterMap_cons_some step]
          exact ih found
        · rename_i down
          rw [List.filterMap_cons_some (Path.innerStep?_eq_named goes down)]
          exact ih found
    · cases found
    · cases found

/-- A path that leads somewhere leads to where its steps lead. -/
theorem locate_eq_follow {path : String} {place : List String} (found : t.locate path = .ok place) :
    place = Path.follow t.home (Path.components path) := by
  unfold locate at found
  rw [Path.components.eq_def]
  split at found
  · cases found
  · rename_i more nonempty lead
    rw [walk_eq_follow found]
    cases more with
    | nil => exact (nonempty rfl).elim
    | cons segment more =>
      rw [lead]
      rfl
  · rename_i notEmpty notRoot
    rw [walk_eq_follow found]
    split
    · rename_i none
      rw [none]
      rfl
    · rename_i empty
      exact (notEmpty empty).elim
    · rename_i more _ lead
      exact (notRoot more lead).elim
    · rename_i more lead
      rw [lead]
      rfl
    · rfl

/-- Two paths to files that have the same steps lead to the same file. -/
theorem readText_eq_of_components (same : Path.components first = Path.components second)
    (isFirst : t.isFile first = true) (isSecond : t.isFile second = true) :
    t.readText first = t.readText second := by
  obtain ⟨place, content, located, -⟩ := isFile_iff.mp isFirst
  obtain ⟨other, content', locatedOther, -⟩ := isFile_iff.mp isSecond
  have equal : place = other := by
    rw [locate_eq_follow located, locate_eq_follow locatedOther, same]
  rw [readText, readText, read, read, located, locatedOther, equal]

end Steps

end FileTree

namespace Glob

open FileTree

/-- What a pattern matches in a tree, it matches in a tree that agrees. -/
theorem expandFrom_subset {t u : FileTree} (agree : t.Agree u) (steps : List Step) (path : String) :
    expandFrom t steps path ⊆ expandFrom u steps path := by
  have flatMap_subset : ∀ {α : Type} {xs ys : List α} {f g : α → List String},
      (∀ x ∈ xs, x ∈ ys) → (∀ x, f x ⊆ g x) → xs.flatMap f ⊆ ys.flatMap g := by
    intro α xs ys f g members images found member
    obtain ⟨x, among, inside⟩ := List.mem_flatMap.mp member
    exact List.mem_flatMap.mpr ⟨x, members x among, images x inside⟩
  fun_induction expandFrom t steps path with
  | case1 path => exact List.Subset.refl _
  | case2 name more path next found stands =>
    rename_i ih
    have standsThere : (if (decide (name = ".") || decide (name = "..")) = true then
        u.isDirectory path else u.hasPath next) = true := by
      rw [agree.isDirectory_eq, agree.hasPath_eq]
      exact stands
    rw [expandFrom, if_pos standsThere]
    exact ih
  | case4 tokens more path place located isDirectory ihNames ihDots =>
    rw [expandFrom, agree.locate_eq, located]
    dsimp only
    rw [agree.nodes, if_pos isDirectory]
    apply List.append_subset.mpr
    constructor
    · refine List.subset_append_of_subset_left _ (flatMap_subset ?_ ihNames)
      intro name member
      obtain ⟨among, fits⟩ := List.mem_filter.mp member
      exact List.mem_filter.mpr ⟨(agree.mem_names place name).mpr among, fits⟩
    · exact List.subset_append_of_subset_right _ (flatMap_subset (fun _ member => member) ihDots)
  | case8 more path ih =>
    rw [expandFrom]
    exact ih
  | case9 step more path notAny place located isDirectory ih =>
    rw [expandFrom, agree.locate_eq, located]
    · dsimp only
      rw [agree.nodes, if_pos isDirectory]
      refine flatMap_subset ?_ ih
      intro way member
      obtain ⟨among, fits⟩ := List.mem_filter.mp member
      exact List.mem_filter.mpr ⟨(agree.mem_below place way).mpr among, fits⟩
    · exact notAny
  | case3 | case5 | case6 | case7 | case10 | case11 => exact List.nil_subset _

/-- The law of a way to match patterns: in trees that agree the same texts are patterns, and each of them
matches the same paths, in whatever order. -/
structure Lawful (matchingPaths : FileTree → String → Option (List String)) : Prop where
  isSome_eq : ∀ {t u : FileTree}, t.Agree u → ∀ text,
    (matchingPaths u text).isSome = (matchingPaths t text).isSome
  mem_iff : ∀ {t u : FileTree}, t.Agree u → ∀ {text found found'}, matchingPaths t text = some found →
    matchingPaths u text = some found' → ∀ path, path ∈ found' ↔ path ∈ found

theorem lawful_paths? : Lawful paths? where
  isSome_eq agree text := by
    rw [paths?, paths?, Option.isSome_map, Option.isSome_map]
  mem_iff := by
    intro t u agree text found found' first second path
    obtain ⟨pattern, isPattern, rfl⟩ := Option.map_eq_some_iff.mp first
    rw [paths?, isPattern, Option.map_some] at second
    cases second
    unfold Pattern.paths
    split
    · rfl
    · constructor
      · exact fun member => expandFrom_subset agree.symm _ _ member
      · exact fun member => expandFrom_subset agree _ _ member

end Glob

end BrightDoc
