import BrightDoc.Files.Tree
import BrightDoc.Proofs.Files.Paths

/-! # Writing files of a directory

In a tree where all that stands somewhere stands in a directory, a path that can be read ends in the
name of a file. Writing a file leaves every directory where it is, so the files of a directory are
reached in the same place before and after; the file that was written has its new content, and all
other files of the directory have the content they had. -/

namespace BrightDoc

namespace Path

/-- A path whose last segment is a name goes to that name. -/
theorem fileName?_of_segments {path last : String} {before : List String}
    (split : segments path = before ++ [last]) (named : innerStep? last = some (.named last)) :
    fileName? path = some last := by
  have ending : ∀ texts : List String,
      lastName? ((texts ++ [last]).filterMap innerStep?) = some last := by
    intro texts
    rw [List.filterMap_append, List.filterMap_cons_some named, List.filterMap_nil, lastName?,
      List.getLast?_concat]
  have behind : ∀ (first : Component) (more texts : List String), more = texts ++ [last] →
      lastName? (first :: more.filterMap innerStep?) = some last := by
    intro first more texts same
    have whole := ending texts
    rw [← same] at whole
    cases steps : more.filterMap innerStep? with
    | nil =>
      rw [steps] at whole
      cases whole
    | cons step rest =>
      rw [steps] at whole
      rw [lastName?, List.getLast?_cons_cons]
      exact whole
  rw [fileName?, components.eq_def]
  split
  · rename_i none
    rw [split] at none
    simp at none
  · rename_i empty
    rw [split] at empty
    cases before with
    | nil =>
      cases empty
      cases named
    | cons first more => simp at empty
  · rename_i more _ lead
    rw [split] at lead
    cases before with
    | nil =>
      cases lead
      cases named
    | cons first texts => exact behind _ more texts (List.cons.inj lead).2.symm
  · rename_i more lead
    rw [split] at lead
    cases before with
    | nil =>
      cases lead
      cases named
    | cons first texts => exact behind _ more texts (List.cons.inj lead).2.symm
  · rw [split]
    exact ending before

end Path

/-- A name that a file of a directory can have. -/
structure IsFileName (name : String) : Prop where
  slashless : '/' ∉ name.toList
  step : Path.innerStep? name = some (.named name)

theorem IsFileName.of_extension {name : String} (slashless : '/' ∉ name.toList) :
    IsFileName (name ++ ".js") := by
  have length : 3 ≤ (name ++ ".js").length := by
    rw [String.length_append]
    exact Nat.le_add_left _ _
  refine ⟨?_, ?_⟩
  · rw [String.toList_append, List.mem_append, not_or]
    exact ⟨slashless, by decide⟩
  · rw [Path.innerStep?.eq_def]
    split
    · rename_i same
      rw [same] at length
      exact absurd length (by decide)
    · rename_i same
      rw [same] at length
      exact absurd length (by decide)
    · rename_i same
      rw [same] at length
      exact absurd length (by decide)
    · rfl

namespace FileTree

/-- All that stands somewhere stands in a directory. -/
def Sound (t : FileTree) : Prop :=
  ∀ place node, t.node? place = some node → t.node? place.dropLast = some .directory

/-- It is enough that every node of the tree stands in a directory. -/
theorem sound_of_nodes {t : FileTree}
    (inside : ∀ entry ∈ t.nodes, t.node? entry.1.dropLast = some .directory) : t.Sound := by
  intro place node found
  unfold node? at found
  split at found
  · rename_i root
    rw [List.isEmpty_iff.mp root]
    rfl
  · obtain ⟨before, after, listed, -⟩ := List.lookup_eq_some_iff.mp found
    apply inside (place, node)
    rw [listed]
    exact List.mem_append_right before List.mem_cons_self

/-- Paths start from the same place in the later tree, and the directories are where they were. -/
structure Keeps (t later : FileTree) : Prop where
  home : later.home = t.home
  directories : ∀ place, t.node? place = some .directory → later.node? place = some .directory

theorem Keeps.refl (t : FileTree) : t.Keeps t :=
  ⟨rfl, fun _ found => found⟩

theorem lookup_filter_of_ne {place other : List String} (apart : other ≠ place)
    (nodes : List (List String × Node)) :
    (nodes.filter fun entry => entry.1 != place).lookup other = nodes.lookup other := by
  induction nodes with
  | nil => rfl
  | cons entry more ih =>
    rw [List.filter_cons]
    by_cases here : entry.1 = place
    · have skipped : (other == entry.1) = false := by simp [here, apart]
      rw [if_neg (by simp [here]), ih, List.lookup_cons, skipped]
    · rw [if_pos (by simp [here]), List.lookup_cons, List.lookup_cons, ih]

theorem node?_set {place : List String} (below : place ≠ []) (t : FileTree) (node : Node)
    (other : List String) :
    (t.set place node).node? other = if other = place then some node else t.node? other := by
  unfold node? set
  by_cases here : other = place
  · subst here
    simp [below]
  · have skipped : (other == place) = false := by simp [here]
    rw [if_neg here, List.lookup_cons, skipped]
    dsimp only
    rw [lookup_filter_of_ne here]

section Walking

variable {t later : FileTree} {place there : List String}

theorem walk_append (t : FileTree) (place first second : List String) :
    t.walk place (first ++ second) = (t.walk place first).bind fun there => t.walk there second := by
  induction first generalizing place with
  | nil => rfl
  | cons segment more ih =>
    rw [List.cons_append, walk, walk]
    split
    · split
      · exact ih _
      split
      · exact ih _
      · exact ih _
    · rfl
    · rfl

/-- The last segment of a way is taken in a directory. -/
theorem walk_concat_eq_ok {way : List String} {segment : String}
    (found : t.walk place (way ++ [segment]) = .ok there) :
    ∃ directory, t.walk place way = .ok directory ∧ t.node? directory = some .directory ∧
      t.walk directory [segment] = .ok there := by
  rw [walk_append] at found
  cases reached : t.walk place way with
  | error e =>
    rw [reached] at found
    cases found
  | ok directory =>
    rw [reached] at found
    have last : t.walk directory [segment] = .ok there := found
    refine ⟨directory, rfl, ?_, last⟩
    rw [walk] at last
    split at last
    · assumption
    · cases last
    · cases last

/-- A name leads from a directory to what has that name in it. -/
theorem walk_named {name : String} (named : Path.innerStep? name = some (.named name))
    (isDirectory : t.node? place = some .directory) : t.walk place [name] = .ok (place ++ [name]) := by
  have notHere : ¬ (name = "" || name = ".") = true := by
    rintro same
    rcases Bool.or_eq_true_iff.mp same with same | same
    · rw [of_decide_eq_true same] at named
      cases named
    · rw [of_decide_eq_true same] at named
      cases named
  have notUp : name ≠ ".." := by
    rintro rfl
    cases named
  rw [walk, isDirectory]
  dsimp only
  rw [if_neg notHere, if_neg notUp]
  rfl

/-- A way that can be gone leads to the same place in a later tree. -/
theorem walk_of_keeps (kept : t.Keeps later) {way : List String}
    (found : t.walk place way = .ok there) : later.walk place way = .ok there := by
  induction way generalizing place with
  | nil => exact found
  | cons segment more ih =>
    rw [walk] at found ⊢
    split at found
    · rename_i isDirectory
      rw [kept.directories place isDirectory]
      dsimp only
      split at found
      · rename_i stays
        rw [if_pos stays]
        exact ih found
      · rename_i goes
        rw [if_neg goes]
        split at found
        · rename_i up
          rw [if_pos up]
          exact ih found
        · rename_i down
          rw [if_neg down]
          exact ih found
    · cases found
    · cases found

theorem locate_of_keeps (kept : t.Keeps later) {path : String} (found : t.locate path = .ok place) :
    later.locate path = .ok place := by
  unfold locate at found ⊢
  split at found
  · cases found
  · exact walk_of_keeps kept found
  · rw [kept.home]
    exact walk_of_keeps kept found

/-- The path to a file of a directory is a way from the root or from home. -/
theorem locate_join (directory : String) :
    ∃ (fromRoot : Bool) (way : List String), ∀ (t : FileTree) (name : String), IsFileName name →
      t.locate (Path.join directory name) =
        t.walk (if fromRoot then [] else t.home) (way ++ [name]) := by
  obtain ⟨way, joined⟩ := Path.segments_join directory
  cases way with
  | nil =>
    refine ⟨false, [], ?_⟩
    intro t name isName
    rw [locate, joined name isName.slashless]
    split
    · rename_i empty
      cases empty
      cases isName.step
    · rename_i lead
      cases lead
      cases isName.step
    · rfl
  | cons first rest =>
    by_cases root : first = ""
    · subst root
      refine ⟨true, rest, ?_⟩
      intro t name isName
      rw [locate, joined name isName.slashless]
      split
      · rename_i empty
        simp at empty
      · rename_i more _ lead
        rw [← (List.cons.inj lead).2]
        rfl
      · rename_i noRoot
        exact absurd rfl (noRoot (rest ++ [name]))
    · refine ⟨false, first :: rest, ?_⟩
      intro t name isName
      rw [locate, joined name isName.slashless]
      split
      · rename_i empty
        exact absurd (List.cons.inj empty).1 root
      · rename_i more _ lead
        exact absurd (List.cons.inj lead).1 root
      · rfl

/-- Once a file of a directory has been reached, every file of that directory is reached beside it. -/
theorem locate_beside {directory first second : String} (kept : t.Keeps later)
    (isFirst : IsFileName first) (isSecond : IsFileName second)
    (found : t.locate (Path.join directory first) = .ok place) :
    ∃ inside, t.node? inside = some .directory ∧ place = inside ++ [first] ∧
      later.locate (Path.join directory second) = .ok (inside ++ [second]) := by
  obtain ⟨fromRoot, way, located⟩ := locate_join directory
  rw [located t first isFirst] at found
  obtain ⟨inside, reached, isDirectory, last⟩ := walk_concat_eq_ok found
  rw [walk_named isFirst.step isDirectory] at last
  cases last
  refine ⟨inside, isDirectory, rfl, ?_⟩
  rw [located later second isSecond, kept.home, walk_append, walk_of_keeps kept reached]
  exact walk_named isSecond.step (kept.directories inside isDirectory)

end Walking

section Reading

variable {t : FileTree} {path : String} {content : Content}

theorem read_eq_ok (found : t.read path = .ok content) :
    ∃ place, t.locate path = .ok place ∧ t.node? place = some (.file content) := by
  unfold read at found
  split at found
  · cases found
  · rename_i place located
    split at found
    · rename_i isFile
      cases found
      exact ⟨place, located, isFile⟩
    · cases found
    · cases found

theorem read_of_locate {place : List String} (located : t.locate path = .ok place)
    (isFile : t.node? place = some (.file content)) : t.read path = .ok content := by
  simp only [read, located, isFile]

theorem readText_eq_ok {text : String} (found : t.readText path = .ok text) :
    ∃ content, t.read path = .ok content ∧ decode content = .ok text := by
  unfold readText at found
  cases bytes : t.read path with
  | error e =>
    rw [bytes] at found
    cases found
  | ok content =>
    rw [bytes] at found
    exact ⟨content, rfl, found⟩

theorem isFile_iff :
    t.isFile path = true ↔
      ∃ place content, t.locate path = .ok place ∧ t.node? place = some (.file content) := by
  unfold isFile find?
  constructor
  · intro isFile
    split at isFile
    · rename_i content found
      split at found
      · rename_i place located
        exact ⟨place, content, located, found⟩
      · cases found
    · cases isFile
  · rintro ⟨place, content, located, found⟩
    rw [located]
    dsimp only
    rw [found]

theorem isFile_of_readText {text : String} (found : t.readText path = .ok text) :
    t.isFile path = true := by
  obtain ⟨content, bytes, -⟩ := readText_eq_ok found
  obtain ⟨place, located, isFile⟩ := read_eq_ok bytes
  exact isFile_iff.mpr ⟨place, content, located, isFile⟩

/-- A way to a file ends in a name. -/
theorem innerStep?_of_walk (sound : t.Sound) {place there way : List String} {segment : String}
    (found : t.walk place (way ++ [segment]) = .ok there)
    (isFile : t.node? there = some (.file content)) :
    Path.innerStep? segment = some (.named segment) := by
  obtain ⟨directory, -, isDirectory, last⟩ := walk_concat_eq_ok found
  have notDirectory : t.node? there ≠ some .directory := by
    rw [isFile]
    simp
  rw [walk, isDirectory] at last
  dsimp only at last
  split at last
  · cases last
    exact absurd isDirectory notDirectory
  · rename_i goes
    split at last
    · cases last
      exact absurd (sound directory .directory isDirectory) notDirectory
    · rename_i down
      exact Path.innerStep?_eq_named goes down

/-- A path that can be read leads to a file by the name that the path ends in. -/
theorem exists_place_of_read (sound : t.Sound) (found : t.read path = .ok content) :
    ∃ inside last, t.locate path = .ok (inside ++ [last]) ∧
      t.node? (inside ++ [last]) = some (.file content) ∧ Path.fileName? path = some last := by
  obtain ⟨place, located, isFile⟩ := read_eq_ok found
  have ending : ∀ {start way : List String} {last : String},
      t.walk start (way ++ [last]) = .ok place →
        Path.innerStep? last = some (.named last) ∧ ∃ inside, place = inside ++ [last] := by
    intro start way last reached
    have named := innerStep?_of_walk sound reached isFile
    obtain ⟨inside, -, isDirectory, step⟩ := walk_concat_eq_ok reached
    rw [walk_named named isDirectory] at step
    cases step
    exact ⟨named, inside, rfl⟩
  have whole := located
  unfold locate at whole
  split at whole
  · cases whole
  · rename_i more nonempty lead
    rcases List.eq_nil_or_concat more with rfl | ⟨way, last, rfl⟩
    · exact (nonempty rfl).elim
    · rw [List.concat_eq_append] at whole lead
      have split : Path.segments path = ("" :: way) ++ [last] := lead
      obtain ⟨named, inside, rfl⟩ := ending whole
      exact ⟨inside, last, located, isFile, Path.fileName?_of_segments split named⟩
  · rcases List.eq_nil_or_concat (Path.segments path) with none | ⟨way, last, split⟩
    · have some := Text.pieces_ne_nil '/' path.toList
      simp [Path.segments, some] at none
    · rw [List.concat_eq_append] at split
      rw [split] at whole
      obtain ⟨named, inside, rfl⟩ := ending whole
      exact ⟨inside, last, located, isFile, Path.fileName?_of_segments split named⟩

/-- What can be read has a name. -/
theorem isSome_stem?_of_read (sound : t.Sound) (found : t.read path = .ok content) :
    (Path.stem? path).isSome = true := by
  obtain ⟨inside, last, -, -, named⟩ := exists_place_of_read sound found
  rw [Path.stem?, named]
  rfl

end Reading

section Writing

variable {t later : FileTree} {directory name text : String}

/-- Writing a file of a directory puts it beside the others, where no directory stands. -/
theorem writeText_join_eq_ok (isName : IsFileName name)
    (written : t.writeText (Path.join directory name) text = .ok later) :
    ∃ inside, t.node? inside = some .directory ∧
      t.locate (Path.join directory name) = .ok (inside ++ [name]) ∧
      t.node? (inside ++ [name]) ≠ some .directory ∧
      later = t.set (inside ++ [name]) (.file (.ofText text)) := by
  unfold writeText at written
  split at written
  · cases written
  · rename_i place located
    split at written
    · cases written
    · rename_i free
      cases written
      obtain ⟨inside, isDirectory, rfl, -⟩ := locate_beside (.refl t) isName isName located
      exact ⟨inside, isDirectory, located, free, rfl⟩

theorem keeps_of_writeText (isName : IsFileName name)
    (written : t.writeText (Path.join directory name) text = .ok later) : t.Keeps later := by
  obtain ⟨inside, -, -, free, rfl⟩ := writeText_join_eq_ok isName written
  refine ⟨rfl, ?_⟩
  intro place isDirectory
  rw [node?_set (by simp), if_neg]
  · exact isDirectory
  · rintro rfl
    exact free isDirectory

theorem sound_of_writeText (sound : t.Sound) (isName : IsFileName name)
    (written : t.writeText (Path.join directory name) text = .ok later) : later.Sound := by
  have kept := keeps_of_writeText isName written
  obtain ⟨inside, isDirectory, -, -, rfl⟩ := writeText_join_eq_ok isName written
  intro place node found
  rw [node?_set (by simp)] at found
  split at found
  · rename_i here
    rw [here, List.dropLast_concat]
    exact kept.directories inside isDirectory
  · exact kept.directories _ (sound place node found)

theorem read_of_writeText (isName : IsFileName name)
    (written : t.writeText (Path.join directory name) text = .ok later) :
    later.read (Path.join directory name) = .ok (.ofText text) := by
  have kept := keeps_of_writeText isName written
  obtain ⟨inside, -, located, -, rfl⟩ := writeText_join_eq_ok isName written
  obtain ⟨inside', -, same, again⟩ := locate_beside kept isName isName located
  rw [← same] at again
  refine read_of_locate again ?_
  rw [node?_set (by simp), if_pos rfl]

/-- The other files of the directory stay as they are. -/
theorem read_of_writeText_other {other : String} {content : Content} (isName : IsFileName name)
    (isOther : IsFileName other) (apart : other ≠ name)
    (written : t.writeText (Path.join directory name) text = .ok later)
    (found : t.read (Path.join directory other) = .ok content) :
    later.read (Path.join directory other) = .ok content := by
  have kept := keeps_of_writeText isName written
  obtain ⟨place, located, isFile⟩ := read_eq_ok found
  obtain ⟨beside, -, rfl, again⟩ := locate_beside kept isOther isOther located
  refine read_of_locate again ?_
  obtain ⟨inside, -, -, -, rfl⟩ := writeText_join_eq_ok isName written
  rw [node?_set (by simp), if_neg]
  · exact isFile
  · intro same
    exact apart (List.append_inj_right' same rfl |> List.singleton_inj.mp)

/-- A file by another name stays as it is, wherever it stands. -/
theorem read_of_writeText_elsewhere {path : String} {content : Content} (sound : t.Sound)
    (isName : IsFileName name) (apart : Path.fileName? path ≠ some name)
    (written : t.writeText (Path.join directory name) text = .ok later)
    (found : t.read path = .ok content) : later.read path = .ok content := by
  have kept := keeps_of_writeText isName written
  obtain ⟨beside, last, located, isFile, named⟩ := exists_place_of_read sound found
  refine read_of_locate (locate_of_keeps kept located) ?_
  obtain ⟨inside, -, -, -, rfl⟩ := writeText_join_eq_ok isName written
  rw [node?_set (by simp), if_neg]
  · exact isFile
  · intro same
    apply apart
    rw [named, List.append_inj_right' same rfl |> List.singleton_inj.mp]

/-- Where a file was, there is one afterwards. -/
theorem isFile_of_writeText {path : String} (isName : IsFileName name)
    (written : t.writeText (Path.join directory name) text = .ok later)
    (isFile : t.isFile path = true) : later.isFile path = true := by
  have kept := keeps_of_writeText isName written
  obtain ⟨place, content, located, found⟩ := isFile_iff.mp isFile
  obtain ⟨inside, -, -, -, rfl⟩ := writeText_join_eq_ok isName written
  rw [isFile_iff]
  by_cases here : place = inside ++ [name]
  · refine ⟨place, .ofText text, locate_of_keeps kept located, ?_⟩
    rw [node?_set (by simp), if_pos here]
  · refine ⟨place, content, locate_of_keeps kept located, ?_⟩
    rw [node?_set (by simp), if_neg here]
    exact found

/-- Writing a file makes no directory. -/
theorem directory_of_writeText (isName : IsFileName name)
    (written : t.writeText (Path.join directory name) text = .ok later) {place : List String}
    (found : later.node? place = some .directory) : t.node? place = some .directory := by
  obtain ⟨inside, -, -, -, rfl⟩ := writeText_join_eq_ok isName written
  rw [node?_set (by simp)] at found
  split at found
  · cases found
  · exact found

/-- What can be written can be written in a later tree without new directories, too. -/
theorem exists_writeText_of_keeps {last : FileTree} (isName : IsFileName name)
    (kept : t.Keeps later)
    (noMore : ∀ place, later.node? place = some .directory → t.node? place = some .directory)
    (written : t.writeText (Path.join directory name) text = .ok last) :
    ∃ made, later.writeText (Path.join directory name) text = .ok made := by
  obtain ⟨inside, -, located, free, -⟩ := writeText_join_eq_ok isName written
  have stillFree : later.node? (inside ++ [name]) ≠ some .directory :=
    fun found => free (noMore _ found)
  refine ⟨later.set (inside ++ [name]) (.file (.ofText text)), ?_⟩
  unfold writeText
  rw [locate_of_keeps kept located]
  dsimp only
  split
  · exact absurd ‹_› stillFree
  · rfl

end Writing

section Directories

variable {t later : FileTree} {path : String}

theorem sound_of_makeDirectory (sound : t.Sound) (made : t.makeDirectory path = .ok later) :
    later.Sound := by
  simp only [makeDirectory] at made
  split at made
  · split at made <;> cases made
  · rename_i name _
    split at made
    · cases made
    · rename_i place _
      split at made
      · cases made
      · cases made
      · rename_i isDirectory
        split at made
        · cases made
        · rename_i free
          cases made
          -- Nothing stood in the place of the new directory.
          have kept : ∀ other, t.node? other = some .directory →
              (t.set (place ++ [name]) .directory).node? other = some .directory := by
            intro other found
            rw [node?_set (by simp)]
            split
            · rfl
            · exact found
          intro other node found
          rw [node?_set (by simp)] at found
          split at found
          · rename_i here
            rw [here, List.dropLast_concat]
            exact kept place isDirectory
          · exact kept _ (sound other node found)

theorem sound_of_orDirectory {error : FileError} (sound : t.Sound)
    (made : t.orDirectory path error = .ok later) : later.Sound := by
  unfold orDirectory at made
  split at made
  · cases made
    exact sound
  · cases made

theorem sound_of_makeDirectoriesFrom (steps : List Component) :
    ∀ {t later : FileTree} {path : String}, t.Sound → t.makeDirectoriesFrom path steps = .ok later →
      later.Sound := by
  induction steps with
  | nil =>
    intro t later path sound made
    cases made
    exact sound
  | cons step outer ih =>
    intro t later path sound made
    rw [makeDirectoriesFrom] at made
    split at made
    · rename_i first
      cases made
      exact sound_of_makeDirectory sound first
    · split at made
      · cases made
      · rename_i prepared ready
        have soundPrepared : prepared.Sound := by
          split at ready
          · cases ready
            exact sound
          · exact ih sound ready
        split at made
        · rename_i again
          cases made
          exact sound_of_makeDirectory soundPrepared again
        · exact sound_of_orDirectory soundPrepared made
    · exact sound_of_orDirectory sound made

/-- Making directories leaves all in directories. -/
theorem sound_of_makeDirectories (sound : t.Sound) (made : t.makeDirectories path = .ok later) :
    later.Sound :=
  sound_of_makeDirectoriesFrom _ sound made

end Directories

end FileTree

end BrightDoc
