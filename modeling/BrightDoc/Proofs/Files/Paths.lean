import BrightDoc.Files.Path
import BrightDoc.Proofs.Text.Pieces

/-! # Names in paths

The steps of a path that go to a name are segments between its slashes, so no such name has a slash in
it. -/

namespace BrightDoc.Path

open BrightDoc.Text

theorem named_of_innerStep? {segment name : String}
    (found : innerStep? segment = some (.named name)) : segment = name := by
  rw [innerStep?.eq_def] at found
  split at found <;> cases found
  rfl

/-- A segment that neither stays nor goes up goes to the name that it is. -/
theorem innerStep?_eq_named {segment : String} (goes : ¬ (segment = "" || segment = ".") = true)
    (down : segment ≠ "..") : innerStep? segment = some (.named segment) := by
  rw [innerStep?.eq_def]
  split
  · exact absurd rfl goes
  · exact absurd rfl goes
  · exact absurd rfl down
  · rfl

theorem mem_segments_of_components {path name : String} (member : .named name ∈ components path) :
    name ∈ segments path := by
  have steps : ∀ {texts : List String}, .named name ∈ texts.filterMap innerStep? → name ∈ texts := by
    intro texts member
    obtain ⟨segment, inside, found⟩ := List.mem_filterMap.mp member
    exact named_of_innerStep? found ▸ inside
  rw [components.eq_def] at member
  split at member
  · cases member
  · cases member
  · rename_i more same
    rcases List.mem_cons.mp member with bad | member
    · cases bad
    · exact same ▸ List.mem_cons_of_mem _ (steps member)
  · rename_i more same
    rcases List.mem_cons.mp member with bad | member
    · cases bad
    · exact same ▸ List.mem_cons_of_mem _ (steps member)
  · exact steps member

/-- The name that some steps of a path go to has no slash in it. -/
theorem lastName?_slashless {path name : String} {steps : List Component}
    (inside : steps ⊆ components path) (found : lastName? steps = some name) :
    '/' ∉ name.toList := by
  rw [lastName?.eq_def] at found
  split at found
  · rename_i last isLast
    cases found
    have member := mem_segments_of_components (inside (List.mem_of_getLast? isLast))
    obtain ⟨piece, among, rfl⟩ := List.mem_map.mp member
    rw [String.toList_ofList]
    exact (infix_of_mem_pieces among).2
  · cases found

theorem parentName?_slashless {path name : String} (found : parentName? path = some name) :
    '/' ∉ name.toList :=
  lastName?_slashless (List.dropLast_subset _) found

theorem stem?_slashless {path stem : String} (found : stem? path = some stem) :
    '/' ∉ stem.toList := by
  obtain ⟨name, isName, rfl⟩ := Option.map_eq_some_iff.mp found
  have slashless : '/' ∉ name.toList := lastName?_slashless (List.Subset.refl _) isName
  unfold splitName
  split
  · exact slashless
  · rename_i before extension cut
    rw [String.toList_ofList]
    intro slash
    have whole := (cutAtLast?_eq_some cut).1
    exact slashless (whole ▸ List.mem_append_left _ slash)
  · exact slashless

/-- A file of a directory is reached by the segments of the directory's path, without an empty last one,
and the name of the file. -/
theorem segments_join (directory : String) :
    ∃ way : List String, ∀ name : String, '/' ∉ name.toList →
      segments (join directory name) = way ++ [name] := by
  have named : ∀ {name : String}, '/' ∉ name.toList →
      (pieces '/' name.toList).map String.ofList = [name] := by
    intro name slashless
    rw [pieces_of_notMem slashless, List.map_singleton, String.ofList_toList]
  cases last : directory.toList.getLast? with
  | none =>
    refine ⟨[], ?_⟩
    intro name slashless
    rw [join, last]
    exact named slashless
  | some c =>
    by_cases slash : c = '/'
    · refine ⟨(pieces '/' directory.toList.dropLast).map String.ofList, ?_⟩
      intro name slashless
      have whole : directory.toList = directory.toList.dropLast ++ ['/'] := by
        rw [← slash]
        exact (List.dropLast_append_getLast? c last).symm
      have joined : join directory name = directory ++ name := by
        rw [join, last, slash]
        rfl
      rw [joined, segments, String.toList_append, whole, List.append_assoc, List.singleton_append,
        pieces_append_mark, List.map_append, named slashless, List.dropLast_concat]
    · refine ⟨segments directory, ?_⟩
      intro name slashless
      have joined : join directory name = directory ++ "/" ++ name := by
        rw [join.eq_def, last]
        split
        · rename_i none
          cases none
        · rename_i found
          cases found
          exact absurd rfl slash
        · rfl
      rw [joined, segments, String.toList_append, String.toList_append, List.append_assoc,
        show "/".toList = ['/'] from rfl, List.singleton_append, pieces_append_mark, List.map_append,
        named slashless]
      rfl

end BrightDoc.Path
