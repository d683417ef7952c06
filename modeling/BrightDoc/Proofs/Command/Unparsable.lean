import BrightDoc.Proofs.Command.Outputs
import BrightDoc.Proofs.Files.Order

/-! # Inputs that cannot be read as source

An input that cannot be read as source is skipped: it adds the warnings of the reader and a notice to the
run and changes nothing else, neither what is declared nor which names are taken. The files that a run
writes are no sources, so the sources are read as they were at its start. A run over sources therefore
leaves the files that a run over those that can be read leaves, and tells about the others in messages of
their own. -/

namespace BrightDoc

/-- A conversion warns about what the reader warns about. -/
theorem Converter.warnings_convertFile (c : Converter) (f : SourceFile) :
    (c.convertFile f).outcome.warnings = (parse f.dialect f.text).warnings := by
  rw [convertFile, convert]
  split
  · rfl
  · rfl

namespace Command

/-- What reading the file at a path as source gives, if it holds a text. -/
def reading? (t : FileTree) (path : String) : Option (Outcome (List Statement)) :=
  match t.readText path with
  | .error _ => none
  | .ok text => some (parse (SourceFile.dialect { name := path, text }) text)

/-- Why the file at a path cannot be read as source, if it holds a text that cannot. -/
def parseError? (t : FileTree) (path : String) : Option ParseError :=
  match (reading? t path).map Outcome.result with
  | some (.error error) => some error
  | some (.ok _) | none => none

/-- What the reader warns about on the way through the file at a path. -/
def warningsOf (t : FileTree) (path : String) : List Warning :=
  (reading? t path).elim [] Outcome.warnings

/-- Whether the file at a path can be read as source, if it can be read at all. -/
def parses (t : FileTree) (path : String) : Bool :=
  (parseError? t path).isNone

/-- A source has another name than every file that is written. -/
theorem fileName?_ne_of_isSource {path : String} (source : isSource path = true) (name : String) :
    Path.fileName? path ≠ some (name ++ ".js") := by
  intro named
  have extension : Path.extension? path = none ∨ Path.extension? path = some "js" := by
    rw [Path.extension?, named, Option.bind_some, Path.splitName,
      show (name ++ ".js").toList = name.toList ++ '.' :: ['j', 's'] from String.toList_append,
      Text.cutAtLast?_append (by decide)]
    split
    · exact Or.inl rfl
    · rename_i same
      cases same
      exact Or.inr rfl
    · rename_i none
      cases none
  rw [isSource, sourceExtensions] at source
  rcases extension with none | js
  · simp [Path.hasExtension, none] at source
  · simp only [Path.hasExtension, js] at source
    exact absurd source (by decide)

/-- A tree in the course of a run: since its start no directory was made or lost, and every source is as
it was. -/
structure Underway (start now : FileTree) : Prop where
  sound : now.Sound
  kept : start.Keeps now
  noMore : ∀ place, now.node? place = some .directory → start.node? place = some .directory
  sources : ∀ path, isSource path = true → ∀ text, start.readText path = .ok text →
    now.readText path = .ok text

theorem Underway.start {start : FileTree} (sound : start.Sound) : Underway start start :=
  ⟨sound, .refl start, fun _ found => found, fun _ _ _ found => found⟩

/-- Writing an output leaves the run underway. -/
theorem Underway.write {start now later : FileTree} {directory name text : String}
    (underway : Underway start now) (isName : IsFileName (name ++ ".js"))
    (written : now.writeText (Path.join directory (name ++ ".js")) text = .ok later) :
    Underway start later := by
  have kept := FileTree.keeps_of_writeText isName written
  refine ⟨FileTree.sound_of_writeText underway.sound isName written, ?_, ?_, ?_⟩
  · exact ⟨kept.home.trans underway.kept.home,
      fun place found => kept.directories place (underway.kept.directories place found)⟩
  · exact fun place found =>
      underway.noMore place (FileTree.directory_of_writeText isName written found)
  · intro path source text found
    obtain ⟨content, read, decoded⟩ := FileTree.readText_eq_ok (underway.sources path source text found)
    have still := FileTree.read_of_writeText_elsewhere underway.sound isName
      (fileName?_ne_of_isSource source name) written read
    rw [FileTree.readText, still]
    exact decoded

namespace Progress

variable {p : Progress} {directory path : String}

/-- The run without its notices. -/
def quiet (p : Progress) : Progress :=
  { p with notices := [] }

/-- The converter after one more input. -/
def converterAfter (p : Progress) (path : String) : Converter :=
  match p.tree.readText path with
  | .error _ => p.converter
  | .ok text => (p.converter.convertFile { name := path, text }).converter

theorem eq_of_quiet_eq {q : Progress} (same : p.quiet = q.quiet) :
    q = { p with notices := q.notices } := by
  obtain ⟨tree, converter, taken, notices⟩ := p
  obtain ⟨tree', converter', taken', notices'⟩ := q
  cases same
  rfl

/-- An input that cannot be read as source adds a notice. -/
theorem convertInput_of_parseError {error : ParseError}
    (failed : parseError? p.tree path = some error) :
    p.convertInput directory path =
      ({ p with
         notices := p.notices ++
          ((warningsOf p.tree path).map .logged ++ [.skipped path error]) }, none) := by
  unfold parseError? reading? at failed
  split at failed
  · rename_i found
    cases failed
    split at found
    · cases found
    · rename_i text read
      have parsed := Option.some.inj found
      simp only [convertInput, warningsOf, reading?, read, Converter.convertFile, Converter.convert,
        parsed, Option.elim_some]
  · cases failed
  · cases failed

/-- Any other input that holds a text is converted. -/
theorem exists_output? {text : String} (read : p.tree.readText path = .ok text)
    (parsed : parseError? p.tree path = none) : ∃ o, p.output? path = some o := by
  simp only [parseError?, reading?, read, Option.map_some] at parsed
  split at parsed
  · cases parsed
  · rename_i statements found
    have done := Option.some.inj found
    simp only [output?, read, Converter.convertFile, Converter.convert, done]
    exact ⟨_, rfl⟩
  · rename_i none
    cases none

/-- An input whose output can be written changes the run by the output. -/
theorem convertInput_of_written {o : Output} {tree : FileTree} (found : p.output? path = some o)
    (written : p.tree.writeText (o.target directory) o.text = .ok tree) :
    p.convertInput directory path =
      ({ tree
         converter := p.converterAfter path
         taken := o.name :: p.taken
         notices := p.notices ++
          ((warningsOf p.tree path).map .logged ++ if o.isRenamed then [o.notice] else []) },
        none) := by
  unfold output? at found
  split at found
  · cases found
  · rename_i text read
    split at found
    · cases found
    · rename_i converted done
      cases found
      have renamed : (if outputName p.taken path = plainName path then []
            else [Notice.renamed path (plainName path) (outputName p.taken path)]) =
          if Output.isRenamed ⟨path, outputName p.taken path, converted⟩ then
            [Output.notice ⟨path, outputName p.taken path, converted⟩] else [] := by
        by_cases plain : outputName p.taken path = plainName path <;>
          simp [Output.isRenamed, plain, Output.notice]
      have logged : (p.converter.convertFile { name := path, text }).outcome.warnings =
          warningsOf p.tree path := by
        simp only [warningsOf, reading?, read, Option.elim_some]
        exact Converter.warnings_convertFile p.converter { name := path, text }
      rw [Output.target] at written
      simp only [convertInput, converterAfter, read, done, written, renamed, logged]

/-- Two runs that differ in their notices, over the same sources and over those of them that can be read,
end alike. They tell the same about each source that can be read, and the first one tells about each of the
others what the reader warns about and that it is skipped. -/
theorem convertInputs_of_sources {ready : FileTree} (paths : List String) :
    ∀ p q : Progress, p.quiet = q.quiet → Underway ready p.tree →
      (∀ path ∈ paths, isSource path = true ∧ ∃ text, ready.readText path = .ok text) →
      (∀ o ∈ p.outputs directory paths,
        ∃ later, ready.writeText (o.target directory) o.text = .ok later) →
      ∃ (done : Progress) (told : List (String × List Notice)),
        told.map Prod.fst = paths ∧
        p.convertInputs directory paths =
          ({ done with notices := p.notices ++ told.flatMap Prod.snd }, none) ∧
        q.convertInputs directory (paths.filter (parses ready)) =
          ({ done with
             notices := q.notices ++ (told.filter fun entry => parses ready entry.1).flatMap Prod.snd },
            none) ∧
        ∀ entry ∈ told, ∀ error, parseError? ready entry.1 = some error →
          entry.2 = (warningsOf ready entry.1).map .logged ++ [.skipped entry.1 error] := by
  induction paths with
  | nil =>
    intro p q same underway sources writable
    refine ⟨p, [], rfl, ?_, ?_, by simp⟩
    · rw [convertInputs, List.flatMap_nil, List.append_nil]
    · rw [List.filter_nil, List.filter_nil, convertInputs, List.flatMap_nil, List.append_nil,
        ← eq_of_quiet_eq same]
  | cons path more ih =>
    intro p q same underway sources writable
    obtain ⟨⟨source, text, read⟩, sourcesMore⟩ := List.forall_mem_cons.mp sources
    have readNow := underway.sources path source text read
    have sameReading : reading? p.tree path = reading? ready path := by
      rw [reading?, reading?, read, readNow]
    have sameError : parseError? p.tree path = parseError? ready path := by
      rw [parseError?, parseError?, sameReading]
    have sameWarnings : warningsOf p.tree path = warningsOf ready path := by
      rw [warningsOf, warningsOf, sameReading]
    let logged : List Notice := (warningsOf ready path).map .logged
    cases failed : parseError? ready path with
    | some error =>
      -- The first run goes on with more notices, the second one has no such input.
      let own : List Notice := logged ++ [.skipped path error]
      let next : Progress := { p with notices := p.notices ++ own }
      have step : p.convertInput directory path = (next, none) := by
        rw [convertInput_of_parseError (sameError.trans failed), sameWarnings]
      obtain ⟨listed, run⟩ := outputs_of_step step more
      obtain ⟨done, told, named, first, second, skips⟩ := ih next q same underway sourcesMore
        (fun o member => writable o (listed ▸ List.mem_append_right _ member))
      have unparsable : ¬parses ready path = true := by simp [parses, failed]
      have dropped : (((path, own) :: told).filter fun entry => parses ready entry.1) =
          told.filter fun entry => parses ready entry.1 :=
        List.filter_cons_of_neg unparsable
      refine ⟨done, (path, own) :: told, ?_, ?_, ?_, ?_⟩
      · rw [List.map_cons, named]
      · rw [run, first, List.append_assoc, List.flatMap_cons]
      · rw [List.filter_cons_of_neg unparsable, dropped, second]
      · rw [List.forall_mem_cons]
        refine ⟨?_, skips⟩
        intro error' failed'
        cases failed.symm.trans failed'
        rfl
    | none =>
      -- Both runs write the same output, and go on with the same notices about it.
      obtain ⟨o, found⟩ := exists_output? readNow (sameError.trans failed)
      have isName := isFileName_of_output? underway.sound found
      have among : o ∈ p.outputs directory (path :: more) := by
        rw [outputs, found]
        exact List.mem_append_left _ (List.mem_singleton_self o)
      obtain ⟨later, canWrite⟩ := writable o among
      obtain ⟨tree, written⟩ :=
        FileTree.exists_writeText_of_keeps isName underway.kept underway.noMore canWrite
      let own : List Notice := logged ++ if o.isRenamed then [o.notice] else []
      let next (notices : List Notice) : Progress :=
        { tree, converter := p.converterAfter path, taken := o.name :: p.taken, notices }
      obtain ⟨notices, rfl⟩ : ∃ notices, q = { p with notices } := ⟨_, eq_of_quiet_eq same⟩
      have step : ∀ notices, ({ p with notices } : Progress).convertInput directory path =
          (next (notices ++ own), none) := by
        intro notices
        rw [convertInput_of_written (show Progress.output? { p with notices } path = some o from found)
          written]
        dsimp only
        rw [sameWarnings]
        rfl
      obtain ⟨listed, run⟩ := outputs_of_step (step p.notices) more
      obtain ⟨done, told, named, first, second, skips⟩ := ih (next (p.notices ++ own))
        (next (notices ++ own)) rfl (underway.write isName written) sourcesMore
        (fun o member => writable o (listed ▸ List.mem_append_right _ member))
      have parsable : parses ready path = true := by simp [parses, failed]
      have kept : (((path, own) :: told).filter fun entry => parses ready entry.1) =
          (path, own) :: told.filter fun entry => parses ready entry.1 :=
        List.filter_cons_of_pos parsable
      refine ⟨done, (path, own) :: told, ?_, ?_, ?_, ?_⟩
      · rw [List.map_cons, named]
      · rw [run, first, List.append_assoc, List.flatMap_cons]
      · rw [List.filter_cons_of_pos parsable, (outputs_of_step (step notices) _).2, second, kept,
          List.append_assoc, List.flatMap_cons]
      · rw [List.forall_mem_cons]
        refine ⟨?_, skips⟩
        intro error failed'
        cases failed.symm.trans failed'

end Progress

/-- Arguments that lead to files name these files. -/
theorem expand_of_isFile {t : FileTree} {paths : List String}
    (libraries : Libraries) (files : ∀ path ∈ paths, t.isFile path = true) :
    expand libraries t paths = ([], .ok paths) := by
  induction paths with
  | nil => rfl
  | cons path more ih =>
    obtain ⟨isFile, filesMore⟩ := List.forall_mem_cons.mp files
    have own : named libraries t path = .files [path] := by
      obtain ⟨place, content, located, found⟩ := FileTree.isFile_iff.mp isFile
      simp only [named, located, found]
    rw [expand, own, ih filesMore]
    rfl

/-- Inputs that cannot be read as source leave no trace but on the error stream: a run over sources whose
outputs can be written succeeds, and leaves all as the run over those sources that can be read as such
does, but for what it tells. The runs tell the same about each input that can be read; about each of the
others the first one tells what the reader logs on its way through it and one line saying that it is
skipped. -/
theorem unparsable_inputs_leave_no_trace (libraries : Libraries) {t ready : FileTree}
    (sound : t.Sound) (c : Converter) {directory : String} {arguments : List String}
    {notices : List Notice} {paths : List String} (made : t.makeDirectories directory = .ok ready)
    (expanded : expand libraries ready arguments = (notices, .ok paths))
    (sources : ∀ path ∈ paths, isSource path = true ∧ ∃ text, ready.readText path = .ok text)
    (writable : ∀ o ∈ Progress.outputs { tree := ready, converter := c, notices } directory
      (Path.sorted paths), ∃ later, ready.writeText (o.target directory) o.text = .ok later) :
    let inputs := Path.sorted paths
    let whole := convertFiles libraries t c directory arguments
    let parsed := convertFiles libraries t c directory (inputs.filter (parses ready))
    whole.exitCode = 0 ∧ whole = { parsed with messages := whole.messages } ∧
    (∀ report ∈ [whole, parsed], report.errors = String.join (report.messages.filterMap fun
      | .text shown => some shown
      | .logged _ => none)) ∧
    ∃ told : List (String × List Message),
      told.map Prod.fst = inputs ∧
      whole.messages = notices.map Notice.message ++ told.flatMap Prod.snd ∧
      parsed.messages = (told.filter fun entry => parses ready entry.1).flatMap Prod.snd ∧
      ∀ entry ∈ told, ∀ error, parseError? ready entry.1 = some error →
        entry.2 = (warningsOf ready entry.1).map .logged ++
          [.text ("warning: skipping " ++ entry.1 ++ ": " ++ error.message ++ "\n")] := by
  intro inputs whole parsed
  have inputSources : ∀ path ∈ inputs,
      isSource path = true ∧ ∃ text, ready.readText path = .ok text :=
    fun path member => sources path (Path.mem_of_mem_sorted member)
  have files : ∀ path ∈ inputs.filter (parses ready), ready.isFile path = true := by
    intro path member
    obtain ⟨-, text, read⟩ := inputSources path (List.mem_of_mem_filter member)
    exact FileTree.isFile_of_readText read
  have sorted : Path.sorted (inputs.filter (parses ready)) = inputs.filter (parses ready) :=
    Path.sorted_of_pairwise ((Path.pairwise_sorted paths).sublist List.filter_sublist)
  let start : Progress := { tree := ready, converter := c, notices }
  let other : Progress := { tree := ready, converter := c }
  obtain ⟨done, told, named, first, second, skips⟩ := Progress.convertInputs_of_sources inputs start
    other rfl (.start (FileTree.sound_of_makeDirectories sound made)) inputSources writable
  have wholeRun : whole =
      { messages := (notices ++ told.flatMap Prod.snd).map Notice.message, tree := done.tree } := by
    rw [show whole = _ from convertFiles_of_expand c made expanded,
      show Progress.convertInputs _ directory inputs = _ from first]
    exact congrArg (fun messages => ({ messages, tree := done.tree } : Report)) (List.append_nil _)
  have parsedRun : parsed =
      { messages :=
          ((told.filter fun entry => parses ready entry.1).flatMap Prod.snd).map Notice.message
        tree := done.tree } := by
    have expandedAgain := expand_of_isFile libraries files
    rw [show parsed = _ from convertFiles_of_expand c made expandedAgain, sorted,
      show Progress.convertInputs _ directory (inputs.filter (parses ready)) = _ from second]
    exact congrArg (fun messages => ({ messages, tree := done.tree } : Report)) (List.append_nil _)
  rw [wholeRun, parsedRun]
  refine ⟨rfl, rfl, fun _ _ => rfl, told.map fun entry => (entry.1, entry.2.map Notice.message), ?_, ?_,
    ?_, ?_⟩
  · rw [List.map_map]
    exact named
  · rw [List.map_append, List.map_flatMap, List.flatMap_map]
  · rw [List.map_flatMap, List.filter_map, List.flatMap_map]
    rfl
  · intro entry member error failed
    obtain ⟨⟨path, lines⟩, among, rfl⟩ := List.mem_map.mp member
    rw [skips (path, lines) among error failed, List.map_append, List.map_map]
    rfl

/-- Two files with the same stem, of which the first one opens a namespace and does not close it. -/
def openNamespaceFirst : FileTree where
  nodes := [(["a"], .directory), (["a", "main.bs"], .file (.ofText "namespace up")),
    (["b"], .directory), (["b", "main.bs"], .file (.ofText "namespace up\nend namespace"))]

/-- The second file gets the plain name and declares the namespace, as if it were alone. -/
theorem open_namespace_leaves_no_trace :
    let whole := convertFiles {} openNamespaceFirst {} "out" ["a/main.bs", "b/main.bs"]
    let alone := convertFiles {} openNamespaceFirst {} "out" ["b/main.bs"]
    whole.exitCode = 0 ∧ whole = { alone with messages := whole.messages } := by
  have sorted : Path.sorted ["a/main.bs", "b/main.bs"] = ["a/main.bs", "b/main.bs"] := by
    rw [Path.sorted, List.mergeSort_of_pairwise (by decide +kernel)]
    decide +kernel
  let ready := openNamespaceFirst.set ["out"] .directory
  let start : Progress := { tree := ready, converter := {} }
  have sources : ∀ path ∈ ["a/main.bs", "b/main.bs"],
      isSource path = true ∧ (ready.readText path).isOk = true := by
    decide +kernel
  have writable : ∀ o ∈ start.outputs "out" ["a/main.bs", "b/main.bs"],
      (ready.writeText (o.target "out") o.text).isOk = true := by
    decide +kernel
  have exists_of_isOk : ∀ {α : Type} {e : Except FileError α}, e.isOk = true → ∃ a, e = .ok a := by
    intro α e isOk
    cases e with
    | error e => cases isOk
    | ok a => exact ⟨a, rfl⟩
  have trace := unparsable_inputs_leave_no_trace {} (FileTree.sound_of_nodes (by decide +kernel)) {}
    (show openNamespaceFirst.makeDirectories "out" = .ok ready from rfl)
    (show expand {} ready ["a/main.bs", "b/main.bs"] = ([], .ok ["a/main.bs", "b/main.bs"]) from rfl)
    (fun path member => ⟨(sources path member).1, exists_of_isOk (sources path member).2⟩)
    (by
      rw [sorted]
      exact fun o member => exists_of_isOk (writable o member))
  have kept : ["a/main.bs", "b/main.bs"].filter (parses ready) = ["b/main.bs"] := by
    decide +kernel
  dsimp only at trace
  rw [sorted, kept] at trace
  exact ⟨trace.1, trace.2.1⟩

/-- A file with an annotated class that is not closed, in the dialect that has neither, and an empty one. -/
def openClassFirst : FileTree where
  nodes := [(["a.brs"], .file (.ofText "@x\nclass A")), (["b.brs"], .file [])]

/-- The line that says that an input is skipped is not all that a run tells about it. -/
theorem open_class_logged :
    let whole := convertFiles {} openClassFirst {} "out" ["a.brs", "b.brs"]
    let alone := convertFiles {} openClassFirst {} "out" ["b.brs"]
    let skipping : Message :=
      .text "warning: skipping a.brs: line 2: missing 'end class' for the class opened here\n"
    ["a.brs", "b.brs"].filter (parses openClassFirst) = ["b.brs"] ∧ alone.messages = [] ∧
      whole.messages = [.logged (.annotationLine 1), .logged (.declaration "class" 2), skipping] ∧
      whole.messages ≠ [skipping] := by
  intro whole alone skipping
  have sorted : Path.sorted ["a.brs", "b.brs"] = ["a.brs", "b.brs"] := by
    rw [Path.sorted, List.mergeSort_of_pairwise (by decide +kernel)]
    decide +kernel
  let start : Progress := { tree := openClassFirst.set ["out"] .directory, converter := {} }
  have expanded : expand {} start.tree ["a.brs", "b.brs"] = ([], .ok ["a.brs", "b.brs"]) := by rfl
  have told : (start.convertInputs "out" ["a.brs", "b.brs"]).1.notices.map Notice.message =
      [.logged (.annotationLine 1), .logged (.declaration "class" 2), skipping] := by
    decide +kernel
  have done : (start.convertInputs "out" ["a.brs", "b.brs"]).2.isNone := by
    decide +kernel
  have messages : whole.messages =
      [.logged (.annotationLine 1), .logged (.declaration "class" 2), skipping] := by
    have made : openClassFirst.makeDirectories "out" = .ok start.tree := by rfl
    rw [show whole = _ from convertFiles_of_expand {} made expanded, sorted, told]
    have ended := Option.isNone_iff_eq_none.mp done
    rw [show (Progress.convertInputs _ "out" ["a.brs", "b.brs"]).2 = none from ended]
    rfl
  refine ⟨by decide +kernel, by decide +kernel, messages, ?_⟩
  rw [messages]
  simp

end Command

end BrightDoc
