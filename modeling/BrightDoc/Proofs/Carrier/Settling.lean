import BrightDoc.Carrier.Entry
import BrightDoc.Proofs.Carrier.Paths

/-! # Settling entries

What has been declared after some entries is what had been before and the blocks that are shown, each
once. If the entries introduce every namespace after the one around it, then what has been declared
stays orderly: each path comes after all its beginnings. -/

namespace BrightDoc

open BrightDoc.Text

/-- What has been declared holds no key twice, and each path after its beginnings. The newest key comes
first. -/
structure Declared.Orderly (declared : Declared) : Prop where
  namespaces : declared.namespaces.Nodup
  modules : declared.modules.Nodup
  rooted : ∀ key ∈ declared.namespaces, (dottedPrefixes key).Sublist declared.namespaces.reverse

/-- A path may be declared: the one around it has been. -/
def Declared.Admits (declared : Declared) (path : String) : Prop :=
  ∀ outer segment : String, '.' ∉ segment.toList → namespaceKey path = outer ++ "." ++ segment →
    outer ∈ declared.namespaces

namespace Declared

theorem mem_addNamespace {declared : Declared} {path key : String} :
    key ∈ (declared.addNamespace path).namespaces ↔
      key ∈ declared.namespaces ∨ key ∈ [namespaceKey path] := by
  unfold addNamespace
  split
  · rename_i known
    have member : namespaceKey path ∈ declared.namespaces := by simpa [hasNamespace] using known
    refine (or_iff_left_of_imp ?_).symm
    intro same
    rw [List.mem_singleton.mp same]
    exact member
  · rw [List.mem_cons, or_comm, List.mem_singleton]

theorem orderly_empty : Orderly {} :=
  ⟨List.nodup_nil, List.nodup_nil, by simp⟩

theorem orderly_addModule {declared : Declared} (orderly : declared.Orderly) (name : String) :
    (declared.addModule name).Orderly := by
  unfold addModule
  split
  · exact orderly
  · rename_i unknown
    refine ⟨orderly.namespaces, List.nodup_cons.mpr ⟨?_, orderly.modules⟩, orderly.rooted⟩
    simpa [hasModule] using unknown

theorem orderly_addNamespace {declared : Declared} (orderly : declared.Orderly) {path : String}
    (admitted : declared.Admits path) : (declared.addNamespace path).Orderly := by
  unfold addNamespace
  split
  · exact orderly
  · rename_i unknown
    refine ⟨List.nodup_cons.mpr ⟨?_, orderly.namespaces⟩, orderly.modules, ?_⟩
    · simpa [hasNamespace] using unknown
    · intro key member
      rw [List.reverse_cons]
      rcases List.mem_cons.mp member with rfl | member
      · by_cases dotted : '.' ∈ (namespaceKey path).toList
        · obtain ⟨outer, segment, split, dotless⟩ := exists_segment dotted
          have around := orderly.rooted outer (admitted outer segment dotless split)
          rw [split, dottedPrefixes_append dotless]
          exact around.append (List.Sublist.refl _)
        · rw [dottedPrefixes_of_dotless dotted]
          exact List.sublist_append_right _ _
      · exact (orderly.rooted key member).trans (List.sublist_append_left _ _)

/-- What has been declared is closed under dropping the last segment of a path. -/
theorem Orderly.outer_mem {declared : Declared} (orderly : declared.Orderly) {outer segment : String}
    (dotless : '.' ∉ segment.toList) (member : outer ++ "." ++ segment ∈ declared.namespaces) :
    outer ∈ declared.namespaces := by
  have prefixes := orderly.rooted _ member
  rw [dottedPrefixes_append dotless] at prefixes
  exact List.mem_reverse.mp
    (prefixes.subset (List.mem_append_left _ (self_mem_dottedPrefixes outer)))

end Declared

end BrightDoc

namespace BrightDoc.Carrier

open BrightDoc.Text

/-- The entries of two lists are settled one after the other. -/
theorem settle_append (declared : Declared) (first second : List Entry) :
    settle declared (first ++ second) =
      ((settle declared first).1 ++ (settle (settle declared first).2 second).1,
        (settle (settle declared first).2 second).2) := by
  induction first generalizing declared with
  | nil => rfl
  | cons entry more ih =>
    cases entry with
    | namespaceBlock path body stub =>
      simp only [List.cons_append, settle, ih]
      split <;> rfl
    | moduleBlock name => simp only [List.cons_append, settle, ih]
    | declaration space pieces => simp only [List.cons_append, settle, ih]
    | nothing => simp only [List.cons_append, settle, ih]

/-- What a block of a namespace is compared by. -/
def Entry.namespaceKey? : Entry → Option String
  | namespaceBlock path _ _ => some (Declared.namespaceKey path)
  | _ => none

/-- What a block of a module is compared by. -/
def Entry.moduleKey? : Entry → Option String
  | moduleBlock name => some (Declared.moduleKey name)
  | _ => none

/-- The keys of the namespaces that some entries declare, in order. -/
def namespaceKeys (entries : List Entry) : List String :=
  entries.filterMap Entry.namespaceKey?

/-- The keys of the modules that some entries declare, in order. -/
def moduleKeys (entries : List Entry) : List String :=
  entries.filterMap Entry.moduleKey?

theorem namespaceKeys_append (first second : List Entry) :
    namespaceKeys (first ++ second) = namespaceKeys first ++ namespaceKeys second :=
  List.filterMap_append

theorem moduleKeys_append (first second : List Entry) :
    moduleKeys (first ++ second) = moduleKeys first ++ moduleKeys second :=
  List.filterMap_append

theorem settle_cons (declared : Declared) (entry : Entry) (more : List Entry) :
    settle declared (entry :: more) =
      ((settle declared [entry]).1 ++ (settle (settle declared [entry]).2 more).1,
        (settle (settle declared [entry]).2 more).2) :=
  settle_append declared [entry] more

/-- What is declared by an entry is what it shows. -/
theorem settle_entry_declared (declared : Declared) (entry : Entry) :
    (settle declared [entry]).2.namespaces =
        (namespaceKeys (settle declared [entry]).1).reverse ++ declared.namespaces ∧
      (settle declared [entry]).2.modules =
        (moduleKeys (settle declared [entry]).1).reverse ++ declared.modules := by
  cases entry with
  | declaration space pieces => exact ⟨rfl, rfl⟩
  | nothing => exact ⟨rfl, rfl⟩
  | moduleBlock name =>
    by_cases known : declared.hasModule name = true
    · simp only [settle, Declared.addModule, if_pos known]
      exact ⟨rfl, rfl⟩
    · simp only [settle, Declared.addModule, if_neg known]
      exact ⟨rfl, rfl⟩
  | namespaceBlock path body stub =>
    by_cases known : declared.hasNamespace path = true
    · simp only [settle, Declared.addNamespace, if_pos known]
      exact ⟨rfl, rfl⟩
    · simp only [settle, Declared.addNamespace, if_neg known]
      exact ⟨rfl, rfl⟩

/-- What is declared by some entries is what they show. -/
theorem settle_declared (declared : Declared) (entries : List Entry) :
    (settle declared entries).2.namespaces =
        (namespaceKeys (settle declared entries).1).reverse ++ declared.namespaces ∧
      (settle declared entries).2.modules =
        (moduleKeys (settle declared entries).1).reverse ++ declared.modules := by
  induction entries generalizing declared with
  | nil => exact ⟨rfl, rfl⟩
  | cons entry more ih =>
    obtain ⟨namespaces, modules⟩ := ih (settle declared [entry]).2
    obtain ⟨first, firstModule⟩ := settle_entry_declared declared entry
    rw [settle_cons]
    refine ⟨?_, ?_⟩
    · rw [namespaces, first, namespaceKeys_append, List.reverse_append, List.append_assoc]
    · rw [modules, firstModule, moduleKeys_append, List.reverse_append, List.append_assoc]

/-- The namespaces that have been declared after some entries. -/
theorem mem_settle_namespaces {declared : Declared} {entries : List Entry} {key : String} :
    key ∈ (settle declared entries).2.namespaces ↔
      key ∈ declared.namespaces ∨ key ∈ namespaceKeys entries := by
  induction entries generalizing declared with
  | nil => exact (or_iff_left List.not_mem_nil).symm
  | cons entry more ih =>
    have first : key ∈ (settle declared [entry]).2.namespaces ↔
        key ∈ declared.namespaces ∨ key ∈ namespaceKeys [entry] := by
      cases entry with
      | declaration space pieces => exact (or_iff_left List.not_mem_nil).symm
      | nothing => exact (or_iff_left List.not_mem_nil).symm
      | moduleBlock name =>
        have same : (declared.addModule name).namespaces = declared.namespaces := by
          unfold Declared.addModule
          split <;> rfl
        exact same ▸ (or_iff_left List.not_mem_nil).symm
      | namespaceBlock path body stub => exact Declared.mem_addNamespace
    rw [settle_cons, ih, first, or_assoc, ← List.mem_append, ← namespaceKeys_append]
    rfl

/-- The entry stands where it may: a namespace after the one around it, and another declaration after
the namespace it is in. -/
def Entry.IsIntroduced (declared : Declared) : Entry → Prop
  | namespaceBlock path _ _ => declared.Admits path
  | declaration space _ => space ≠ "" → Declared.namespaceKey space ∈ declared.namespaces
  | moduleBlock _ | nothing => True

/-- Each of the entries stands where it may, after those before it. -/
def Introduced (declared : Declared) : List Entry → Prop
  | [] => True
  | entry :: more => entry.IsIntroduced declared ∧ Introduced (settle declared [entry]).2 more

theorem introduced_append {declared : Declared} {first second : List Entry} :
    Introduced declared (first ++ second) ↔
      Introduced declared first ∧ Introduced (settle declared first).2 second := by
  induction first generalizing declared with
  | nil => simp [Introduced, settle]
  | cons entry more ih =>
    rw [List.cons_append, Introduced, Introduced, ih, and_assoc,
      settle_cons declared entry more]

/-- Entries that stand where they may do so wherever more has been declared. -/
theorem Introduced.mono {declared wider : Declared} {entries : List Entry}
    (introduced : Introduced declared entries)
    (sub : declared.namespaces ⊆ wider.namespaces) : Introduced wider entries := by
  induction entries generalizing declared wider with
  | nil => trivial
  | cons entry more ih =>
    refine ⟨?_, ih introduced.2 ?_⟩
    · cases entry with
      | moduleBlock name => trivial
      | nothing => trivial
      | namespaceBlock path body stub =>
        exact fun outer segment dotless split => sub (introduced.1 outer segment dotless split)
      | declaration space pieces => exact fun named => sub (introduced.1 named)
    · intro key member
      rw [mem_settle_namespaces] at member ⊢
      exact member.imp_left fun known => sub known

theorem orderly_settle {declared : Declared} (orderly : declared.Orderly) {entries : List Entry}
    (introduced : Introduced declared entries) : (settle declared entries).2.Orderly := by
  induction entries generalizing declared with
  | nil => exact orderly
  | cons entry more ih =>
    rw [settle_cons]
    apply ih _ introduced.2
    cases entry with
    | moduleBlock name => exact Declared.orderly_addModule orderly name
    | namespaceBlock path body stub => exact Declared.orderly_addNamespace orderly introduced.1
    | declaration space pieces => exact orderly
    | nothing => exact orderly

theorem eq_of_settle_declaration {declared : Declared} {entry : Entry} {space : String}
    {pieces : List Piece} (shown : .declaration space pieces ∈ (settle declared [entry]).1) :
    entry = .declaration space pieces := by
  cases entry with
  | declaration space' pieces' => exact (List.mem_singleton.mp shown).symm
  | nothing => simp [settle] at shown
  | moduleBlock name =>
    simp only [settle, List.mem_singleton] at shown
    split at shown <;> cases shown
  | namespaceBlock path body stub =>
    simp only [settle] at shown
    split at shown <;> simp at shown

/-- Before a declaration all beginnings of its namespace are shown, or had been declared, in order. -/
theorem dottedPrefixes_sublist {declared : Declared} (orderly : declared.Orderly)
    {entries before rest : List Entry} {space : String} {pieces : List Piece}
    (introduced : Introduced declared entries)
    (shown : (settle declared entries).1 = before ++ .declaration space pieces :: rest)
    (named : space ≠ "") :
    (dottedPrefixes (Declared.namespaceKey space)).Sublist
      (declared.namespaces.reverse ++ namespaceKeys before) := by
  induction entries generalizing declared before with
  | nil => simp [settle] at shown
  | cons entry more ih =>
    have step : (settle declared [entry]).2.namespaces.reverse =
        declared.namespaces.reverse ++ namespaceKeys (settle declared [entry]).1 := by
      rw [(settle_entry_declared declared entry).1, List.reverse_append, List.reverse_reverse]
    have orderlyStep : (settle declared [entry]).2.Orderly :=
      orderly_settle orderly ⟨introduced.1, trivial⟩
    -- The declaration is shown by a later entry, or it is the first entry itself.
    rw [settle_cons] at shown
    rcases List.append_eq_append_iff.mp shown with ⟨between, rfl, below⟩ | ⟨after, first, below⟩
    · have prefixes := ih orderlyStep introduced.2 below
      rw [namespaceKeys_append, ← List.append_assoc, ← step]
      exact prefixes
    · cases after with
      | nil =>
        have prefixes := @ih (settle declared [entry]).2 orderlyStep [] introduced.2 below.symm
        rw [List.append_nil] at first
        rw [← first, ← step]
        simpa [namespaceKeys] using prefixes
      | cons own after =>
        cases (List.cons.inj below).1
        have isEntry := eq_of_settle_declaration (first ▸ List.mem_append_right _ List.mem_cons_self)
        subst isEntry
        have known := introduced.1 named
        exact (orderly.rooted _ known).trans (List.sublist_append_left _ _)

end BrightDoc.Carrier
