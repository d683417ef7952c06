import BrightDoc.Command.Inputs
import BrightDoc.Proofs.Files.Paths
import Mathlib.Data.List.Nodup
import Mathlib.Data.List.Perm.Subperm

/-! # Names of output files

The name for an input is its plain one as long as that is free. Otherwise candidates are tried, which
all differ: of one more than there are names taken, one is free, so the search finds the first free
candidate of them all. No name has a slash in it, so each one names a file of the output directory. -/

namespace BrightDoc.Command

theorem toString_injective : Function.Injective fun n : Nat => toString n := by
  intro m n same
  have digits : Nat.toDigits 10 m = Nat.toDigits 10 n := by
    simpa only [Nat.toString_eq_repr, Nat.toList_repr] using congrArg String.toList same
  simpa using congrArg (fun digits => Nat.ofDigitChars 10 digits 0) digits

/-- No two candidates are the same. -/
theorem candidate_injective (base : String) : Function.Injective (candidate base) := by
  have longer : ∀ n, candidate base (n + 1) ≠ base := by
    intro n same
    have lengths := congrArg String.length same
    simp only [candidate, String.length_append] at lengths
    have mark : "_".length = 1 := rfl
    omega
  intro m n same
  cases m with
  | zero =>
    cases n with
    | zero => rfl
    | succ n => exact absurd same.symm (longer n)
  | succ m =>
    cases n with
    | zero => exact absurd same (longer m)
    | succ n =>
      have numbers : toString (m + 2) = toString (n + 2) := (String.append_right_inj _).mp same
      have equal := toString_injective numbers
      omega

/-- Among one more candidate than names are taken, one is free. -/
theorem exists_candidate_notMem (taken : List String) (base : String) :
    ∃ n < taken.length + 1, candidate base n ∉ taken := by
  by_contra none
  push Not at none
  have subset : (List.range (taken.length + 1)).map (candidate base) ⊆ taken := by
    intro name member
    obtain ⟨n, inside, rfl⟩ := List.mem_map.mp member
    exact none n (List.mem_range.mp inside)
  have distinct : ((List.range (taken.length + 1)).map (candidate base)).Nodup :=
    List.nodup_range.map (candidate_injective base)
  have length := (distinct.subperm subset).length_le
  rw [List.length_map, List.length_range] at length
  omega

/-- The search ends: it finds the first candidate that is not taken. -/
theorem freeName_eq (taken : List String) (base : String) :
    ∃ n, freeName taken base = candidate base n ∧ candidate base n ∉ taken ∧
      ∀ m < n, candidate base m ∈ taken := by
  rw [freeName, List.find?_map]
  cases found : (List.range (taken.length + 1)).find? ((fun name => !taken.contains name) ∘
      candidate base) with
  | none =>
    obtain ⟨n, inside, free⟩ := exists_candidate_notMem taken base
    have refused := List.find?_eq_none.mp found n (List.mem_range.mpr inside)
    simp [free] at refused
  | some n =>
    obtain ⟨free, -, before⟩ := List.find?_range_eq_some.mp found
    refine ⟨n, rfl, by simpa using free, ?_⟩
    intro m less
    simpa using before m less

/-- The name for an input is free. -/
theorem outputName_notMem (taken : List String) (path : String) : outputName taken path ∉ taken := by
  unfold outputName
  split
  · obtain ⟨n, found, free, -⟩ := freeName_eq taken (qualifiedName path)
    rw [found]
    exact free
  · rename_i free
    simpa using free

/-- An input gets its plain name exactly if that is free. -/
theorem outputName_eq_plainName_iff (taken : List String) (path : String) :
    outputName taken path = plainName path ↔ plainName path ∉ taken := by
  constructor
  · intro plain
    exact plain ▸ outputName_notMem taken path
  · intro free
    rw [outputName, if_neg (by simpa using free)]

/-- Otherwise it gets the first free candidate. -/
theorem outputName_of_mem {taken : List String} {path : String} (member : plainName path ∈ taken) :
    ∃ n, outputName taken path = candidate (qualifiedName path) n ∧
      ∀ m < n, candidate (qualifiedName path) m ∈ taken := by
  obtain ⟨n, found, -, before⟩ := freeName_eq taken (qualifiedName path)
  rw [outputName, if_pos (by simpa using member)]
  exact ⟨n, found, before⟩

theorem toString_slashless (n : Nat) : '/' ∉ (toString n).toList := by
  rw [Nat.toString_eq_repr, Nat.toList_repr]
  intro member
  have digit := Nat.isDigit_of_mem_toDigits (by decide) (by decide) member
  exact absurd digit (by decide)

theorem candidate_slashless {base : String} (slashless : '/' ∉ base.toList) (n : Nat) :
    '/' ∉ (candidate base n).toList := by
  cases n with
  | zero => exact slashless
  | succ n =>
    simp only [candidate, String.toList_append, List.mem_append, not_or]
    exact ⟨⟨slashless, by decide⟩, toString_slashless _⟩

theorem plainName_slashless {path : String} (named : (Path.stem? path).isSome = true) :
    '/' ∉ (plainName path).toList := by
  obtain ⟨stem, found⟩ := Option.isSome_iff_exists.mp named
  rw [plainName, found]
  exact Path.stem?_slashless found

theorem outputName_slashless {path : String} (named : (Path.stem? path).isSome = true)
    (taken : List String) : '/' ∉ (outputName taken path).toList := by
  have plain := plainName_slashless named
  have qualified : '/' ∉ (qualifiedName path).toList := by
    unfold qualifiedName
    split
    · rename_i directory found
      simp only [String.toList_append, List.mem_append, not_or]
      exact ⟨⟨Path.parentName?_slashless found, by decide⟩, plain⟩
    · exact plain
  unfold outputName
  split
  · obtain ⟨n, found, -, -⟩ := freeName_eq taken (qualifiedName path)
    rw [found]
    exact candidate_slashless qualified n
  · exact plain

end BrightDoc.Command
