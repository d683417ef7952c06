import BrightDoc.Proofs.Command.Outputs
import BrightDoc.Proofs.Files.Agreement
import BrightDoc.Proofs.Files.Order

/-! # The order of arguments

What is written for some arguments is told by which arguments they are: neither their order matters, nor
how often each of them is given, nor the order in which directories are listed and patterns are matched.
The paths that they name are sorted, so two runs go through lists of paths with the same steps. A path is
read and named by its steps, so the runs keep in step: after each pair of inputs their trees agree, and
they have declared and named the same. -/

namespace BrightDoc

/-- A file is converted by the steps of its path. -/
theorem Converter.convertFile_of_components (c : Converter) {first second : String}
    (same : Path.components first = Path.components second) (text : String) :
    c.convertFile { name := first, text } = c.convertFile { name := second, text } := by
  have sameName : Path.fileName? first = Path.fileName? second := by
    rw [Path.fileName?, Path.fileName?, same]
  have dialect : SourceFile.dialect { name := first, text } =
      SourceFile.dialect { name := second, text } := by
    rw [SourceFile.dialect, SourceFile.dialect, Path.hasExtension, Path.hasExtension,
      Path.extension?, Path.extension?, sameName]
  have ownModule : SourceFile.ownModule c.options { name := first, text } =
      SourceFile.ownModule c.options { name := second, text } := by
    rw [SourceFile.ownModule, SourceFile.ownModule, Path.stem?, Path.stem?, sameName]
  rw [convertFile, convertFile, dialect, ownModule]

namespace Command

/-- The output of a file with a name is called by the steps of its path. -/
theorem outputName_of_components {first second : String}
    (same : Path.components first = Path.components second)
    (named : (Path.stem? first).isSome = true) (taken : List String) :
    plainName first = plainName second ∧ outputName taken first = outputName taken second := by
  have sameStem : Path.stem? second = Path.stem? first := by
    simp only [Path.stem?, Path.fileName?, same]
  obtain ⟨stem, found⟩ := Option.isSome_iff_exists.mp named
  have plain : plainName first = plainName second := by
    rw [plainName, plainName, sameStem, found, Option.getD_some, Option.getD_some]
  have qualified : qualifiedName first = qualifiedName second := by
    simp only [qualifiedName, Path.parentName?, same, plain]
  refine ⟨plain, ?_⟩
  rw [outputName, outputName, plain, qualified]

section Expanding

/-- The paths that an argument names. -/
def Named.paths : Named → List String
  | files paths => paths
  | matching paths => paths
  | invalidPattern => []

/-- Whether an argument is no pattern. -/
def Named.isInvalid : Named → Bool
  | invalidPattern => true
  | files _ | matching _ => false

variable {libraries : Libraries} {t u : FileTree}

/-- All that an argument names are files. -/
theorem isFile_of_mem_named {argument path : String}
    (member : path ∈ (named libraries t argument).paths) : t.isFile path = true := by
  have byPattern : path ∈ (named.byPattern libraries t argument).paths → t.isFile path = true := by
    intro member
    unfold named.byPattern at member
    split at member
    · exact (List.mem_filter.mp member).2
    · cases member
  unfold named at member
  split at member
  · rename_i place located
    split at member
    · rename_i content found
      rw [List.mem_singleton.mp member]
      exact FileTree.isFile_iff.mpr ⟨place, content, located, found⟩
    · exact (Bool.and_eq_true_iff.mp (List.mem_filter.mp member).2).1
    · exact byPattern member
  · exact byPattern member

/-- An argument names the same files in trees that agree. -/
theorem named_of_agree (lawful : Glob.Lawful libraries.matchingPaths) (agree : t.Agree u)
    (argument : String) :
    (named libraries u argument).isInvalid = (named libraries t argument).isInvalid ∧
      ∀ path, path ∈ (named libraries u argument).paths ↔
        path ∈ (named libraries t argument).paths := by
  have byPattern :
      (named.byPattern libraries u argument).isInvalid =
          (named.byPattern libraries t argument).isInvalid ∧
        ∀ path, path ∈ (named.byPattern libraries u argument).paths ↔
          path ∈ (named.byPattern libraries t argument).paths := by
    have isPattern := lawful.isSome_eq agree argument
    unfold named.byPattern
    cases first : libraries.matchingPaths t argument with
    | none =>
      rw [first, Option.isSome_none, Option.isSome_eq_false_iff, Option.isNone_iff_eq_none] at isPattern
      rw [isPattern]
      exact ⟨rfl, fun _ => Iff.rfl⟩
    | some found =>
      obtain ⟨found', second⟩ := Option.isSome_iff_exists.mp (isPattern.trans (by rw [first]; rfl))
      rw [second]
      refine ⟨rfl, ?_⟩
      intro path
      simp only [Named.paths, List.mem_filter, lawful.mem_iff agree first second, agree.isFile_eq]
  unfold named
  rw [agree.locate_eq]
  split
  · rename_i place _
    rw [agree.nodes]
    split
    · exact ⟨rfl, fun _ => Iff.rfl⟩
    · refine ⟨rfl, ?_⟩
      intro path
      simp only [Named.paths, List.mem_filter, List.mem_map, agree.mem_names, agree.isFile_eq]
    · exact byPattern
  · exact byPattern

/-- Arguments name all that each of them names, unless one of them is no pattern. -/
theorem expand_eq (libraries : Libraries) (t : FileTree) (arguments : List String) :
    if arguments.any fun argument => (named libraries t argument).isInvalid then
      ∃ failure, (expand libraries t arguments).2 = .error failure
    else (expand libraries t arguments).2 =
      .ok (arguments.flatMap fun argument => (named libraries t argument).paths) := by
  induction arguments with
  | nil => rfl
  | cons argument more ih =>
    by_cases invalid : (named libraries t argument).isInvalid = true
    · rw [if_pos (by simp [invalid]), expand]
      split
      · exact ⟨_, rfl⟩
      · rename_i own
        rw [own] at invalid
        cases invalid
      · rename_i own
        rw [own] at invalid
        cases invalid
    · have step : (expand libraries t (argument :: more)).2 =
          (expand libraries t more).2.map ((named libraries t argument).paths ++ ·) := by
        rw [expand]
        split
        · rename_i own
          rw [own] at invalid
          exact absurd rfl invalid
        · rename_i own
          rw [own]
          rfl
        · rename_i own
          rw [own]
          rfl
      rw [List.any_cons, Bool.eq_false_iff.mpr invalid, Bool.false_or, step, List.flatMap_cons]
      split at ih
      · rename_i later
        obtain ⟨failure, failed⟩ := ih
        rw [if_pos later, failed]
        exact ⟨failure, rfl⟩
      · rename_i valid
        rw [if_neg valid, ih]
        rfl

/-- The same arguments in two orders, in trees that agree: one of them is no pattern in both, or they
name the same files. -/
theorem expand_of_mem_iff (lawful : Glob.Lawful libraries.matchingPaths) (agree : t.Agree u)
    {first second : List String} (members : ∀ argument, argument ∈ first ↔ argument ∈ second) :
    (∃ failure failure', (expand libraries t first).2 = .error failure ∧
        (expand libraries u second).2 = .error failure') ∨
      ∃ paths paths', (expand libraries t first).2 = .ok paths ∧
        (expand libraries u second).2 = .ok paths' ∧
        (∀ path, path ∈ paths ↔ path ∈ paths') ∧ ∀ path ∈ paths, t.isFile path = true := by
  have sameInvalid : (second.any fun argument => (named libraries u argument).isInvalid) =
      first.any fun argument => (named libraries t argument).isInvalid := by
    rw [Bool.eq_iff_iff, List.any_eq_true, List.any_eq_true]
    simp only [members, (named_of_agree lawful agree _).1]
  have expandedFirst := expand_eq libraries t first
  have expandedSecond := expand_eq libraries u second
  rw [sameInvalid] at expandedSecond
  split at expandedFirst
  · rename_i invalid
    rw [if_pos invalid] at expandedSecond
    obtain ⟨failure, failed⟩ := expandedFirst
    obtain ⟨failure', failed'⟩ := expandedSecond
    exact Or.inl ⟨failure, failure', failed, failed'⟩
  · rename_i valid
    rw [if_neg valid] at expandedSecond
    refine Or.inr ⟨_, _, expandedFirst, expandedSecond, ?_, ?_⟩
    · intro path
      simp only [List.mem_flatMap, members, (named_of_agree lawful agree _).2]
    · intro path member
      obtain ⟨argument, -, found⟩ := List.mem_flatMap.mp member
      exact isFile_of_mem_named found

end Expanding

namespace Progress

/-- Two runs that have come to the same point: their trees agree, and they have declared and named the
same. -/
structure Agree (p q : Progress) : Prop where
  tree : p.tree.Agree q.tree
  converter : q.converter = p.converter
  taken : q.taken = p.taken

variable {p q after : Progress} {directory first second : String}

/-- Two inputs with the same steps leave two runs at the same point, or end them both. -/
theorem convertInput_of_agree (agree : p.Agree q) (sound : p.tree.Sound)
    (same : Path.components first = Path.components second)
    (isFirst : p.tree.isFile first = true) (isSecond : p.tree.isFile second = true) :
    (p.convertInput directory first).1.Agree (q.convertInput directory second).1 ∧
      (q.convertInput directory second).2.isSome = (p.convertInput directory first).2.isSome := by
  have readSecond : q.tree.readText second = p.tree.readText first := by
    rw [agree.tree.readText_eq, FileTree.readText_eq_of_components same isFirst isSecond]
  have stem : (Path.stem? first).isSome = true := by
    obtain ⟨place, content, located, found⟩ := FileTree.isFile_iff.mp isFirst
    exact FileTree.isSome_stem?_of_read sound (FileTree.read_of_locate located found)
  obtain ⟨plain, name⟩ := outputName_of_components same stem p.taken
  rw [convertInput, convertInput, readSecond]
  cases p.tree.readText first with
  | error cause => exact ⟨agree, rfl⟩
  | ok text =>
    dsimp only
    rw [agree.converter, agree.taken, ← p.converter.convertFile_of_components same, ← plain, ← name]
    cases (p.converter.convertFile { name := first, text }).outcome.result with
    | error error => exact ⟨⟨agree.tree, rfl, rfl⟩, rfl⟩
    | ok output =>
      dsimp only
      have written := agree.tree.writeText
        (Path.join directory (outputName p.taken first ++ ".js")) output
      generalize p.tree.writeText _ output = result at written
      generalize q.tree.writeText _ output = result' at written
      cases written with
      | error cause => exact ⟨⟨agree.tree, rfl, rfl⟩, rfl⟩
      | ok agreeAfter => exact ⟨⟨agreeAfter, rfl, rfl⟩, rfl⟩

/-- A file that a path leads to does not go away. -/
theorem isFile_of_convertInput (sound : p.tree.Sound)
    (step : p.convertInput directory first = (after, none)) {path : String}
    (isFile : p.tree.isFile path = true) : after.tree.isFile path = true := by
  cases found : p.output? first with
  | none => exact (convertInput_of_none found step).1 ▸ isFile
  | some o =>
    obtain ⟨-, -, ⟨-, written⟩ | ⟨-, cause, failed⟩⟩ := convertInput_of_some found step
    · exact FileTree.isFile_of_writeText (isFileName_of_output? sound found) written isFile
    · cases failed

/-- Two runs from the same point, over inputs with the same steps, end alike. -/
theorem convertInputs_of_agree {paths paths' : List String}
    (same : List.Forall₂ (fun first second => Path.components first = Path.components second)
      paths paths') :
    ∀ {p q : Progress}, p.Agree q → p.tree.Sound → (∀ path ∈ paths, p.tree.isFile path = true) →
      (∀ path ∈ paths', p.tree.isFile path = true) →
      (p.convertInputs directory paths).1.Agree (q.convertInputs directory paths').1 ∧
        (q.convertInputs directory paths').2.isSome = (p.convertInputs directory paths).2.isSome := by
  induction same with
  | nil => exact fun agree _ _ _ => ⟨agree, rfl⟩
  | @cons first second more more' sameHead _ ih =>
    intro p q agree sound files files'
    obtain ⟨isFirst, filesMore⟩ := List.forall_mem_cons.mp files
    obtain ⟨isSecond, filesMore'⟩ := List.forall_mem_cons.mp files'
    obtain ⟨agreeAfter, bothEnd⟩ := @convertInput_of_agree p q directory first second agree sound
      sameHead isFirst isSecond
    rcases step : p.convertInput directory first with ⟨after, failure⟩
    rcases step' : q.convertInput directory second with ⟨after', failure'⟩
    rw [step, step'] at agreeAfter bothEnd
    rw [convertInputs, convertInputs, step, step']
    cases failure with
    | some failure =>
      obtain ⟨failure', rfl⟩ := Option.isSome_iff_exists.mp bothEnd
      exact ⟨agreeAfter, rfl⟩
    | none =>
      cases Option.not_isSome_iff_eq_none.mp (Bool.eq_false_iff.mp bothEnd)
      exact ih agreeAfter (sound_of_convertInput sound step)
        (fun path member => isFile_of_convertInput sound step (filesMore path member))
        (fun path member => isFile_of_convertInput sound step (filesMore' path member))

end Progress

/-- What a run over input files comes to is told by which arguments it has. -/
theorem convertFiles_of_mem_iff {libraries : Libraries}
    (lawful : Glob.Lawful libraries.matchingPaths) {t u : FileTree} (sound : t.Sound)
    (agree : t.Agree u) (c : Converter) (directory : String) {first second : List String}
    (members : ∀ argument, argument ∈ first ↔ argument ∈ second) :
    (convertFiles libraries t c directory first).exitCode =
        (convertFiles libraries u c directory second).exitCode ∧
      (convertFiles libraries t c directory first).tree.Agree
        (convertFiles libraries u c directory second).tree := by
  rw [convertFiles, convertFiles]
  have made := agree.makeDirectories directory
  generalize madeFirst : t.makeDirectories directory = result at made
  generalize u.makeDirectories directory = result' at made
  cases made with
  | error cause => exact ⟨rfl, agree⟩
  | @ok ready ready' agreeReady =>
    have soundReady := FileTree.sound_of_makeDirectories sound madeFirst
    have expanded := expand_of_mem_iff lawful agreeReady members
    dsimp only
    generalize expand libraries ready first = expansion at expanded
    generalize expand libraries ready' second = expansion' at expanded
    obtain ⟨notices, named⟩ := expansion
    obtain ⟨notices', named'⟩ := expansion'
    rcases expanded with ⟨failure, failure', rfl, rfl⟩ | ⟨paths, paths', rfl, rfl, same, files⟩
    · exact ⟨rfl, agreeReady⟩
    · have sameSteps : List.Forall₂
          (fun first second => Path.components first = Path.components second)
          (Path.sorted paths) (Path.sorted paths') := by
        have sameLists := Path.components_sorted_eq same
        rw [← List.forall₂_eq_eq_eq] at sameLists
        exact List.forall₂_map_left_iff.mp (List.forall₂_map_right_iff.mp sameLists)
      let start : Progress := { tree := ready, converter := c, notices }
      let start' : Progress := { tree := ready', converter := c, notices := notices' }
      obtain ⟨agreeDone, bothEnd⟩ := @Progress.convertInputs_of_agree directory _ _ sameSteps start
        start' ⟨agreeReady, rfl, rfl⟩ soundReady
        (fun path member => files path (Path.mem_of_mem_sorted member))
        (fun path member => files path ((same path).mpr (Path.mem_of_mem_sorted member)))
      dsimp only
      rcases run : start.convertInputs directory (Path.sorted paths) with ⟨done, failure⟩
      rcases run' : start'.convertInputs directory (Path.sorted paths') with ⟨done', failure'⟩
      rw [run, run'] at agreeDone bothEnd
      cases failure with
      | some failure =>
        obtain ⟨failure', rfl⟩ := Option.isSome_iff_exists.mp bothEnd
        exact ⟨rfl, agreeDone.tree⟩
      | none =>
        cases Option.not_isSome_iff_eq_none.mp (Bool.eq_false_iff.mp bothEnd)
        exact ⟨rfl, agreeDone.tree⟩

/-- The options of a run are the same in trees that agree. -/
theorem options_of_agree (libraries : Libraries) {t u : FileTree} (agree : t.Agree u) (a : Arguments)
    (inputs : List String) : options libraries u { a with inputs } = options libraries t a := by
  simp only [options, agree.readText_eq]

/-- The order of file arguments is irrelevant, and so is how often they are given, how directories are
listed and in which order patterns are matched: two runs with the same arguments but for this, on trees
that agree, end with the same exit code and leave the same files with the same contents. -/
theorem argument_order_irrelevant {t u : FileTree} (sound : t.Sound) (agree : t.Agree u)
    {i j : Invocation} {a : Arguments} {inputs : List String}
    (sameLibraries : j.libraries = i.libraries) (lawful : Glob.Lawful i.libraries.matchingPaths)
    (first : i.libraries.readArguments i.defaultConfig i.arguments = .ok a)
    (second : j.libraries.readArguments j.defaultConfig j.arguments = .ok { a with inputs })
    (nonempty : a.inputs ≠ []) (members : ∀ argument, argument ∈ a.inputs ↔ argument ∈ inputs) :
    (run i t).exitCode = (run j u).exitCode ∧ (run i t).tree.Agree (run j u).tree := by
  have nonemptyToo : inputs ≠ [] := by
    obtain ⟨argument, member⟩ := List.exists_mem_of_ne_nil _ nonempty
    exact List.ne_nil_of_mem ((members argument).mp member)
  rw [run, run, first, second]
  dsimp only
  rw [sameLibraries, options_of_agree i.libraries agree]
  cases options i.libraries t a with
  | error failure => exact ⟨rfl, agree⟩
  | ok options =>
    dsimp only
    rw [if_neg (by simpa using nonempty), if_neg (by simpa using nonemptyToo)]
    cases a.output with
    | none => exact ⟨rfl, agree⟩
    | some directory => exact convertFiles_of_mem_iff lawful sound agree _ directory members

/-- Two files with a class of the same name. -/
def twoClasses : FileTree :=
  { nodes := [
      (["a.bs"], .file (.ofText "class A\nend class")),
      (["b.bs"], .file (.ofText "class a\nend class"))] }

/-- The same files, listed in another order. -/
def twoClassesReversed : FileTree :=
  { twoClasses with nodes := twoClasses.nodes.reverse }

/-- A pattern and a file that it names, in two orders. -/
theorem swapped_arguments_irrelevant :
    let once : Invocation := { arguments := ["-o", "out", "a.bs", "*.bs"] }
    let again : Invocation := { arguments := ["*.bs", "a.bs", "*.bs", "-o", "out"] }
    (run once twoClasses).exitCode = (run again twoClassesReversed).exitCode ∧
      (run once twoClasses).tree.Agree (run again twoClassesReversed).tree := by
  have agree : twoClasses.Agree twoClassesReversed := by
    refine ⟨rfl, fun place => ?_⟩
    by_cases first : place = ["a.bs"]
    · subst first
      rfl
    · by_cases second : place = ["b.bs"]
      · subst second
        rfl
      · simp [FileTree.node?, twoClasses, twoClassesReversed, List.lookup_cons,
          beq_false_of_ne first, beq_false_of_ne second]
  have members : ∀ argument, argument ∈ ["a.bs", "*.bs"] ↔ argument ∈ ["*.bs", "a.bs", "*.bs"] := by
    grind
  exact argument_order_irrelevant (FileTree.sound_of_nodes (by decide +kernel)) agree rfl
    Glob.lawful_paths?
    (show Arguments.read none ["-o", "out", "a.bs", "*.bs"] = .ok
      { inputs := ["a.bs", "*.bs"], output := some "out" } from rfl)
    (show Arguments.read none ["*.bs", "a.bs", "*.bs", "-o", "out"] = .ok
      { inputs := ["*.bs", "a.bs", "*.bs"], output := some "out" } from rfl)
    (List.cons_ne_nil _ _) members

end Command

end BrightDoc
