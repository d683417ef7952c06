import BrightDoc.Command.Run
import BrightDoc.Proofs.Command.Names
import BrightDoc.Proofs.Files.Writing

/-! # What a run over input files writes

Each input that can be converted claims a name that no input before it has claimed. So no output of a
run is written over by a later one, and a notice about another name is given exactly for the inputs
whose plain name was taken. -/

namespace BrightDoc.Command

/-- An input that has been converted in a run: the name that it has claimed, and its converted text. -/
structure Output where
  path : String
  name : String
  text : String
deriving DecidableEq

namespace Output

/-- The path of the file with the text. -/
def target (o : Output) (directory : String) : String :=
  Path.join directory (o.name ++ ".js")

/-- Whether the input has not got its plain name. -/
def isRenamed (o : Output) : Bool :=
  o.name != plainName o.path

/-- The notice that an input has not got its plain name. -/
def notice (o : Output) : Notice :=
  .renamed o.path (plainName o.path) o.name

end Output

/-- Whether a notice is about an input that has not got its plain name. -/
def Notice.isRenaming : Notice → Bool
  | renamed .. => true
  | unmatched _ | logged _ | skipped .. => false

namespace Progress

/-- What the next input is converted to, if it can be read and converted. -/
def output? (p : Progress) (path : String) : Option Output :=
  match p.tree.readText path with
  | .error _ => none
  | .ok text =>
    match (p.converter.convertFile { name := path, text }).outcome.result with
    | .error _ => none
    | .ok converted => some { path, name := outputName p.taken path, text := converted }

/-- The inputs that are converted in a run, up to its first failure, in order. -/
def outputs (p : Progress) (directory : String) : List String → List Output
  | [] => []
  | path :: more =>
    (p.output? path).toList ++
      match p.convertInput directory path with
      | (after, none) => after.outputs directory more
      | (_, some _) => []

/-- The notices that inputs have not got their plain names. -/
def renamings (p : Progress) : List Notice :=
  p.notices.filter Notice.isRenaming

/-- The entries of the log are not about names of outputs. -/
theorem isRenaming_logged (warnings : List Warning) :
    (warnings.map Notice.logged).filter Notice.isRenaming = [] := by
  simp [List.filter_eq_nil_iff, Notice.isRenaming]

section Step

variable {p after : Progress} {directory path : String} {failure : Option Failure}

/-- An input that is not converted changes neither files nor names. -/
theorem convertInput_of_none (none : p.output? path = none)
    (step : p.convertInput directory path = (after, failure)) :
    after.tree = p.tree ∧ after.taken = p.taken ∧ after.renamings = p.renamings ∧
      ∀ target cause, failure ≠ some (.unwritable target cause) := by
  unfold output? at none
  unfold convertInput at step
  split at none
  · rename_i e unread
    rw [unread] at step
    cases step
    exact ⟨rfl, rfl, rfl, by simp⟩
  · rename_i text read
    rw [read] at step
    dsimp only at step
    split at none
    · rename_i e failed
      rw [failed] at step
      cases step
      exact ⟨rfl, rfl, by simp [renamings, isRenaming_logged, Notice.isRenaming], by simp⟩
    · cases none

/-- An input that is converted claims its name, gives a notice if that is not its plain one, and is
written, or the run fails. -/
theorem convertInput_of_some {o : Output} (found : p.output? path = some o)
    (step : p.convertInput directory path = (after, failure)) :
    after.taken = o.name :: p.taken ∧
      after.renamings = p.renamings ++ (if o.isRenamed then [o.notice] else []) ∧
      (failure = none ∧ p.tree.writeText (o.target directory) o.text = .ok after.tree ∨
        after.tree = p.tree ∧ ∃ cause, failure = some (.unwritable (o.target directory) cause)) := by
  unfold output? at found
  unfold convertInput at step
  split at found
  · cases found
  · rename_i text read
    rw [read] at step
    dsimp only at step
    split at found
    · cases found
    · rename_i converted done
      rw [done] at step
      cases found
      have notices : ∀ warnings : List Warning,
          (p.notices ++ (warnings.map Notice.logged ++
            if outputName p.taken path = plainName path then []
            else [Notice.renamed path (plainName path) (outputName p.taken path)])).filter
              Notice.isRenaming =
          p.renamings ++ if Output.isRenamed ⟨path, outputName p.taken path, converted⟩ then
            [Output.notice ⟨path, outputName p.taken path, converted⟩] else [] := by
        intro warnings
        rw [List.filter_append, List.filter_append, isRenaming_logged, List.nil_append, renamings]
        by_cases plain : outputName p.taken path = plainName path
        · simp [Output.isRenamed, plain]
        · simp [Output.isRenamed, plain, Output.notice, Notice.isRenaming]
      dsimp only at step
      split at step
      · rename_i cause refused
        cases step
        exact ⟨rfl, notices _, Or.inr ⟨rfl, cause, rfl⟩⟩
      · rename_i tree written
        cases step
        exact ⟨rfl, notices _, Or.inl ⟨rfl, written⟩⟩

theorem output?_eq_some {o : Output} (found : p.output? path = some o) :
    o.path = path ∧ o.name = outputName p.taken path ∧ ∃ content, p.tree.read path = .ok content := by
  unfold output? at found
  split at found
  · cases found
  · rename_i text read
    split at found
    · cases found
    · cases found
      obtain ⟨content, bytes, -⟩ := FileTree.readText_eq_ok read
      exact ⟨rfl, rfl, content, bytes⟩

/-- The name that an input claims is one of a file. -/
theorem isFileName_of_output? {o : Output} (sound : p.tree.Sound) (found : p.output? path = some o) :
    IsFileName (o.name ++ ".js") := by
  obtain ⟨-, named, content, read⟩ := output?_eq_some found
  rw [named]
  exact .of_extension (outputName_slashless (FileTree.isSome_stem?_of_read sound read) p.taken)

theorem sound_of_convertInput (sound : p.tree.Sound)
    (step : p.convertInput directory path = (after, none)) : after.tree.Sound := by
  cases found : p.output? path with
  | none => exact (convertInput_of_none found step).1 ▸ sound
  | some o =>
    obtain ⟨-, -, ⟨-, written⟩ | ⟨-, cause, failed⟩⟩ := convertInput_of_some found step
    · exact FileTree.sound_of_writeText sound (isFileName_of_output? sound found) written
    · cases failed

end Step

section Run

variable {directory : String}

theorem outputs_of_failure {p after : Progress} {path : String} {failure : Failure}
    (step : p.convertInput directory path = (after, some failure)) (more : List String) :
    p.outputs directory (path :: more) = (p.output? path).toList ∧
      p.convertInputs directory (path :: more) = (after, some failure) := by
  simp only [outputs, convertInputs, step, List.append_nil, and_self]

theorem outputs_of_step {p after : Progress} {path : String}
    (step : p.convertInput directory path = (after, none)) (more : List String) :
    p.outputs directory (path :: more) =
        (p.output? path).toList ++ after.outputs directory more ∧
      p.convertInputs directory (path :: more) = after.convertInputs directory more := by
  simp only [outputs, convertInputs, step, and_self]

/-- Each input claims its name among those that the inputs before it have claimed. -/
theorem name_of_outputs (paths : List String) :
    ∀ (p : Progress) (earlier : List Output) (o : Output) (later : List Output),
      p.outputs directory paths = earlier ++ o :: later →
      o.name = outputName ((earlier.map Output.name).reverse ++ p.taken) o.path := by
  induction paths with
  | nil =>
    intro p earlier o later split
    simp [outputs] at split
  | cons path more ih =>
    intro p earlier o later split
    -- The input itself comes first, if it is converted, and then those that go on from it.
    have own : ∀ {first : Output}, p.output? path = some first →
        first.name = outputName p.taken first.path := by
      intro first found
      obtain ⟨samePath, named, -⟩ := output?_eq_some found
      rw [named, samePath]
    rcases step : p.convertInput directory path with ⟨after, failure⟩
    cases failure with
    | some failure =>
      rw [(outputs_of_failure step more).1] at split
      cases found : p.output? path with
      | none => simp [found] at split
      | some first =>
        rw [found, Option.toList_some] at split
        cases earlier with
        | nil =>
          cases split
          exact own found
        | cons e es => simp at split
    | none =>
      rw [(outputs_of_step step more).1] at split
      cases found : p.output? path with
      | none =>
        rw [found] at split
        have named := ih after earlier o later split
        rw [(convertInput_of_none found step).2.1] at named
        exact named
      | some first =>
        rw [found, Option.toList_some, List.singleton_append] at split
        cases earlier with
        | nil =>
          cases (List.cons.inj split).1
          exact own found
        | cons e es =>
          obtain ⟨rfl, rest⟩ := List.cons.inj split
          have named := ih after es o later rest
          rw [(convertInput_of_some found step).1] at named
          simpa only [List.map_cons, List.reverse_cons, List.append_assoc, List.singleton_append]
            using named

/-- No two inputs claim the same name, nor one that was taken before. -/
theorem outputs_nodup (paths : List String) :
    ∀ p : Progress, ((p.outputs directory paths).map Output.name).Nodup ∧
      ∀ o ∈ p.outputs directory paths, o.name ∉ p.taken := by
  induction paths with
  | nil =>
    intro p
    simp [outputs]
  | cons path more ih =>
    intro p
    have own : ∀ {first : Output}, p.output? path = some first → first.name ∉ p.taken := by
      intro first found
      rw [(output?_eq_some found).2.1]
      exact outputName_notMem p.taken path
    rcases step : p.convertInput directory path with ⟨after, failure⟩
    cases failure with
    | some failure =>
      rw [(outputs_of_failure step more).1]
      cases found : p.output? path with
      | none => simp
      | some first => simp [own found]
    | none =>
      obtain ⟨distinct, apart⟩ := ih after
      rw [(outputs_of_step step more).1]
      cases found : p.output? path with
      | none =>
        rw [(convertInput_of_none found step).2.1] at apart
        exact ⟨distinct, apart⟩
      | some first =>
        rw [(convertInput_of_some found step).1] at apart
        refine ⟨?_, ?_⟩
        · rw [Option.toList_some, List.singleton_append, List.map_cons, List.nodup_cons]
          refine ⟨?_, distinct⟩
          intro again
          obtain ⟨o, member, same⟩ := List.mem_map.mp again
          exact apart o member (same ▸ List.mem_cons_self)
        · intro o member
          rw [Option.toList_some, List.singleton_append] at member
          rcases List.mem_cons.mp member with rfl | member
          · exact own found
          · exact fun taken => apart o member (List.mem_cons_of_mem _ taken)

/-- A run gives a notice exactly for the inputs that have not got their plain names. -/
theorem renamings_convertInputs (paths : List String) :
    ∀ p : Progress, (p.convertInputs directory paths).1.renamings =
      p.renamings ++ ((p.outputs directory paths).filter Output.isRenamed).map Output.notice := by
  induction paths with
  | nil =>
    intro p
    simp [convertInputs, outputs]
  | cons path more ih =>
    intro p
    rcases step : p.convertInput directory path with ⟨after, failure⟩
    have here : after.renamings =
        p.renamings ++ ((p.output? path).toList.filter Output.isRenamed).map Output.notice := by
      cases found : p.output? path with
      | none => simpa using (convertInput_of_none found step).2.2.1
      | some o =>
        rw [(convertInput_of_some found step).2.1]
        cases renamed : o.isRenamed <;> simp [renamed]
    cases failure with
    | some failure =>
      obtain ⟨listed, run⟩ := outputs_of_failure step more
      rw [listed, run]
      exact here
    | none =>
      obtain ⟨listed, run⟩ := outputs_of_step step more
      rw [listed, run, ih after, here, List.filter_append, List.map_append, List.append_assoc]

/-- A file with a name that is taken stays as it is. -/
theorem read_of_taken (paths : List String) {name : String} {content : Content}
    (isName : IsFileName (name ++ ".js")) :
    ∀ p : Progress, p.tree.Sound → name ∈ p.taken →
      p.tree.read (Path.join directory (name ++ ".js")) = .ok content →
      (p.convertInputs directory paths).1.tree.read (Path.join directory (name ++ ".js")) =
        .ok content := by
  induction paths with
  | nil => exact fun p _ _ found => found
  | cons path more ih =>
    intro p sound taken found
    rcases step : p.convertInput directory path with ⟨after, failure⟩
    have kept : name ∈ after.taken ∧
        after.tree.read (Path.join directory (name ++ ".js")) = .ok content := by
      cases converted : p.output? path with
      | none =>
        obtain ⟨sameTree, sameNames, -⟩ := convertInput_of_none converted step
        exact ⟨sameNames ▸ taken, sameTree ▸ found⟩
      | some o =>
        obtain ⟨names, -, written⟩ := convertInput_of_some converted step
        refine ⟨names ▸ List.mem_cons_of_mem _ taken, ?_⟩
        rcases written with ⟨-, written⟩ | ⟨sameTree, -⟩
        · refine FileTree.read_of_writeText_other (isFileName_of_output? sound converted) isName ?_
            written found
          intro same
          apply outputName_notMem p.taken path
          rw [← (output?_eq_some converted).2.1, ← (String.append_left_inj ".js").mp same]
          exact taken
        · exact sameTree ▸ found
    cases failure with
    | some failure =>
      rw [(outputs_of_failure step more).2]
      exact kept.2
    | none =>
      rw [(outputs_of_step step more).2]
      exact ih after (sound_of_convertInput sound step) kept.1 kept.2

/-- At the end of a run the output of every input is there, unless it could not be written. -/
theorem read_of_outputs (paths : List String) :
    ∀ p : Progress, p.tree.Sound → ∀ o ∈ p.outputs directory paths,
      (∀ cause, (p.convertInputs directory paths).2 ≠
        some (.unwritable (o.target directory) cause)) →
      (p.convertInputs directory paths).1.tree.read (o.target directory) = .ok (.ofText o.text) := by
  induction paths with
  | nil =>
    intro p sound o member
    simp [outputs] at member
  | cons path more ih =>
    intro p sound o member
    rcases step : p.convertInput directory path with ⟨after, failure⟩
    cases failure with
    | some failure =>
      obtain ⟨listed, run⟩ := outputs_of_failure step more
      rw [listed, Option.mem_toList] at member
      rw [run]
      intro writable
      obtain ⟨-, -, ⟨none, -⟩ | ⟨-, cause, failed⟩⟩ := convertInput_of_some member step
      · cases none
      · exact absurd failed (writable cause)
    | none =>
      have soundAfter := sound_of_convertInput sound step
      obtain ⟨listed, run⟩ := outputs_of_step step more
      rw [listed, List.mem_append, Option.mem_toList] at member
      rw [run]
      intro writable
      rcases member with found | member
      · obtain ⟨names, -, ⟨-, written⟩ | ⟨-, cause, failed⟩⟩ := convertInput_of_some found step
        · have isName := isFileName_of_output? sound found
          exact read_of_taken more isName after soundAfter (names ▸ List.mem_cons_self)
            (FileTree.read_of_writeText isName written)
        · cases failed
      · exact ih after soundAfter o member writable

end Run

end Progress

/-- The notices on the way to the input files are not about names of outputs. -/
theorem isRenaming_expand (libraries : Libraries) (t : FileTree) (arguments : List String) :
    (expand libraries t arguments).1.filter Notice.isRenaming = [] := by
  induction arguments with
  | nil => rfl
  | cons argument more ih =>
    rw [expand]
    split
    · rfl
    · exact ih
    · dsimp only
      rw [List.filter_append, ih]
      split <;> rfl

/-- The report of a run whose arguments name some paths, by how it goes over them. -/
theorem convertFiles_of_expand {libraries : Libraries} {t ready : FileTree} (c : Converter)
    {directory : String} {arguments : List String} {notices : List Notice} {paths : List String}
    (made : t.makeDirectories directory = .ok ready)
    (expanded : expand libraries ready arguments = (notices, .ok paths)) :
    let start : Progress := { tree := ready, converter := c, notices }
    let run := start.convertInputs directory (Path.sorted paths)
    convertFiles libraries t c directory arguments =
      { exitCode := if run.2.isSome then 1 else 0
        messages :=
          run.1.notices.map Notice.message ++ run.2.elim [] (fun failure => [.text failure.message])
        tree := run.1.tree } := by
  intro start run
  simp only [convertFiles, made, expanded]
  rcases going : start.convertInputs directory (Path.sorted paths) with ⟨done, _ | failure⟩
  · simp [run, going]
  · simp [run, going, failed]

/-- The outputs of a run are kept apart: no two inputs get the same name; an input gets its plain name
exactly if no input before it has, and otherwise the first of its candidates that none has; a warning
with both names is printed exactly for these, in order, and all else that the run prints comes from the
log, from skipped inputs, from patterns without files and from the failure that ends it; and in the end
every output is in the directory, with the text that its input was converted to, but for one that could
not be written and ended the run. -/
theorem outputs_kept_apart (libraries : Libraries) {t ready : FileTree} (sound : t.Sound)
    (c : Converter) {directory : String} {arguments : List String} {notices : List Notice}
    {paths : List String} (made : t.makeDirectories directory = .ok ready)
    (expanded : expand libraries ready arguments = (notices, .ok paths)) :
    let start : Progress := { tree := ready, converter := c, notices }
    let outputs := start.outputs directory (Path.sorted paths)
    let failure := (start.convertInputs directory (Path.sorted paths)).2
    let report := convertFiles libraries t c directory arguments
    (outputs.map Output.name).Nodup ∧
    (∀ earlier o later, outputs = earlier ++ o :: later →
      (o.name = plainName o.path ↔ plainName o.path ∉ earlier.map Output.name) ∧
      (plainName o.path ∈ earlier.map Output.name →
        ∃ n, o.name = candidate (qualifiedName o.path) n ∧
          ∀ m < n, candidate (qualifiedName o.path) m ∈ earlier.map Output.name)) ∧
    report.errors = String.join (report.messages.filterMap fun
      | .text shown => some shown
      | .logged _ => none) ∧
    (∃ told : List Notice,
      report.messages =
        told.map Notice.message ++ failure.elim [] (fun failure => [.text failure.message]) ∧
      (told.filter Notice.isRenaming).map Notice.message =
        (outputs.filter fun o => o.name ≠ plainName o.path).map (fun o =>
          .text ("warning: " ++ plainName o.path ++ ".js already written this run; writing " ++
            o.path ++ " to " ++ o.name ++ ".js\n")) ∧
      ∀ notice ∈ told, notice.isRenaming = false →
        (∃ warning, notice.message = .logged warning) ∨
        (∃ path error, notice.message = .text ("warning: skipping " ++ path ++ ": " ++ error ++ "\n")) ∨
        ∃ pattern, notice.message = .text ("warning: no files matched: " ++ pattern ++ "\n")) ∧
    ∀ o ∈ outputs, (∀ cause, failure ≠ some (.unwritable (o.target directory) cause)) →
      report.tree.read (o.target directory) = .ok (.ofText o.text) := by
  intro start outputs failure report
  have soundReady : start.tree.Sound := FileTree.sound_of_makeDirectories sound made
  have result := convertFiles_of_expand c made expanded
  refine ⟨(Progress.outputs_nodup _ start).1, ?_, rfl, ⟨_, congrArg Report.messages result, ?_, ?_⟩, ?_⟩
  · intro earlier o later split
    have named := Progress.name_of_outputs _ start earlier o later split
    rw [show start.taken = [] from rfl, List.append_nil] at named
    rw [named]
    refine ⟨?_, ?_⟩
    · rw [outputName_eq_plainName_iff, List.mem_reverse]
    · intro taken
      obtain ⟨n, found, before⟩ := outputName_of_mem (List.mem_reverse.mpr taken)
      exact ⟨n, found, fun m less => List.mem_reverse.mp (before m less)⟩
  · have told := @Progress.renamings_convertInputs directory (Path.sorted paths) start
    have none : start.renamings = [] := by
      have unnamed := isRenaming_expand libraries ready arguments
      rw [expanded] at unnamed
      exact unnamed
    rw [none, List.nil_append] at told
    have isRenamed : (fun o : Output => decide (o.name ≠ plainName o.path)) = Output.isRenamed := by
      funext o
      rw [Output.isRenamed, bne, beq_eq_decide, decide_not]
    rw [← Progress.renamings, told, List.map_map, isRenamed]
    rfl
  · intro notice _ other
    cases notice with
    | unmatched pattern => exact Or.inr (Or.inr ⟨pattern, rfl⟩)
    | logged warning => exact Or.inl ⟨warning, rfl⟩
    | skipped path error => exact Or.inr (Or.inl ⟨path, error.message, rfl⟩)
    | renamed => cases other
  · intro o member writable
    rw [show report.tree = _ from congrArg Report.tree result]
    exact Progress.read_of_outputs _ start soundReady o member writable

/-- Two files with the same stem, and one with the name that the second of them gets. -/
def sameStems : FileTree where
  nodes := [(["a"], .directory), (["a", "main.bs"], .file []), (["b"], .directory),
    (["b", "main.bs"], .file []), (["b_main.bs"], .file [])]

/-- The third file finds its plain name taken, though no other file has its stem. -/
theorem same_stems_kept_apart :
    let outputs : List Output :=
      [{ path := "a/main.bs", name := "main", text := "/**\n * @module main\n */\n" },
        { path := "b/main.bs", name := "b_main", text := "\n" },
        { path := "b_main.bs", name := "b_main_2", text := "/**\n * @module b_main\n */\n" }]
    let report := convertFiles {} sameStems {} "out" ["a/main.bs", "b/main.bs", "b_main.bs"]
    ∀ o ∈ outputs, report.tree.read (o.target "out") = .ok (.ofText o.text) := by
  have sorted : Path.sorted ["a/main.bs", "b/main.bs", "b_main.bs"] =
      ["a/main.bs", "b/main.bs", "b_main.bs"] := by
    rw [Path.sorted, List.mergeSort_of_pairwise (by decide +kernel)]
    decide +kernel
  have apart := outputs_kept_apart {} (FileTree.sound_of_nodes (by decide +kernel)) {}
    (show sameStems.makeDirectories "out" = .ok (sameStems.set ["out"] .directory) from rfl)
    (show expand {} _ ["a/main.bs", "b/main.bs", "b_main.bs"] =
      ([], .ok ["a/main.bs", "b/main.bs", "b_main.bs"]) from rfl)
  rw [sorted] at apart
  let start : Progress := { tree := sameStems.set ["out"] .directory, converter := {} }
  intro outputs report o member
  have listed : start.outputs "out" ["a/main.bs", "b/main.bs", "b_main.bs"] = outputs := by
    decide +kernel
  have done : (start.convertInputs "out" ["a/main.bs", "b/main.bs", "b_main.bs"]).2.isNone := by
    decide +kernel
  refine apart.2.2.2.2 o (listed ▸ member) ?_
  intro cause failed
  rw [Option.isNone_iff_eq_none.mp done] at failed
  cases failed

end BrightDoc.Command
