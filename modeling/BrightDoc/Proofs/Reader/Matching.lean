import BrightDoc.Proofs.Reader.Arrangement
import Mathlib.Data.List.Nodup

/-! # Which comment documents which declaration

Comments end on later and later lines of their list, so the comment that a declaration is matched with
is decided by two lines alone: the one above the declaration's first mark, and its first line. -/

namespace BrightDoc

/-- The comment ends just above the declaration and its annotations. -/
def Comment.IsAbove (c : Comment) (p : Placement) : Prop :=
  c.range.stop.line + 1 = p.topLine

/-- The comment ends on the first line of the declaration. -/
def Comment.IsBeside (c : Comment) (p : Placement) : Prop :=
  c.range.stop.line = p.range.start.line

instance (c : Comment) (p : Placement) : Decidable (c.IsAbove p) :=
  inferInstanceAs (Decidable (_ = _))

instance (c : Comment) (p : Placement) : Decidable (c.IsBeside p) :=
  inferInstanceAs (Decidable (_ = _))

theorem isDocumentedBy_iff {p : Placement} {c : Comment} :
    p.isDocumentedBy c = true ↔ c.IsAbove p ∨ c.IsBeside p := by
  rw [Placement.isDocumentedBy, Bool.or_eq_true, beq_iff_eq, beq_iff_eq]
  rfl

/-- The comments end on later and later lines. -/
def EndInOrder (comments : List Comment) : Prop :=
  comments.Pairwise fun first second => first.range.stop.line < second.range.stop.line

theorem EndInOrder.eq_of_stop_line {comments : List Comment} (ordered : EndInOrder comments)
    {c d : Comment} (isFirst : c ∈ comments) (isSecond : d ∈ comments)
    (same : c.range.stop.line = d.range.stop.line) : c = d := by
  have apart : (comments.map fun c => c.range.stop.line).Nodup :=
    (List.pairwise_map.mpr ordered).imp Nat.ne_of_lt
  exact List.inj_on_of_nodup_map apart isFirst isSecond same

section Chosen

variable {comments : List Comment} {chosen : Comment → Bool} {p : Placement}

/-- Among comments in order, one that is chosen by its last line is the one that is found. -/
theorem EndInOrder.find?_eq_some_iff (ordered : EndInOrder comments)
    (together : ∀ {c d}, chosen c = true → chosen d = true → c.range.stop.line = d.range.stop.line)
    {c : Comment} (member : c ∈ comments) : comments.find? chosen = some c ↔ chosen c = true := by
  refine ⟨List.find?_some, fun isChosen => ?_⟩
  cases found : comments.find? chosen with
  | none => exact absurd isChosen (List.find?_eq_none.mp found c member)
  | some d =>
    rw [ordered.eq_of_stop_line (List.mem_of_find?_eq_some found) member
      (together (List.find?_some found) isChosen)]

/-- No more than one of some comments in order is chosen by its last line. -/
theorem EndInOrder.length_filter_le_one (ordered : EndInOrder comments)
    (together : ∀ {c d}, chosen c = true → chosen d = true → c.range.stop.line = d.range.stop.line) :
    (comments.filter chosen).length ≤ 1 := by
  have kept : EndInOrder (comments.filter chosen) := ordered.sublist List.filter_sublist
  cases found : comments.filter chosen with
  | nil => exact Nat.zero_le 1
  | cons first more =>
    cases more with
    | nil => exact Nat.le_refl 1
    | cons second rest =>
      rw [found] at kept
      have isChosen : ∀ c ∈ first :: second :: rest, chosen c = true := by
        rw [← found]
        exact fun c member => (List.mem_filter.mp member).2
      have same := together (isChosen first List.mem_cons_self) (isChosen second (by simp))
      have less := (List.pairwise_cons.mp kept).1 second List.mem_cons_self
      omega

theorem stop_line_eq_of_isAbove {c d : Comment} (first : decide (c.IsAbove p) = true)
    (second : decide (d.IsAbove p) = true) : c.range.stop.line = d.range.stop.line :=
  Nat.succ.inj ((of_decide_eq_true first).trans (of_decide_eq_true second).symm)

theorem stop_line_eq_of_isBeside {c d : Comment} (first : decide (c.IsBeside p) = true)
    (second : decide (d.IsBeside p) = true) : c.range.stop.line = d.range.stop.line :=
  (of_decide_eq_true first).trans (of_decide_eq_true second).symm

/-- Among comments in order the match is the one above the declaration, else the one beside it. -/
theorem comment?_eq_or (ordered : EndInOrder comments) (top : p.topLine ≤ p.range.start.line) :
    p.comment? comments =
      (comments.find? fun c => c.IsAbove p).or (comments.find? fun c => c.IsBeside p) := by
  induction comments with
  | nil => rfl
  | cons c comments ih =>
    obtain ⟨later, ordered⟩ := List.pairwise_cons.mp ordered
    rw [Placement.comment?, List.find?_cons, List.find?_cons, List.find?_cons]
    by_cases above : c.IsAbove p
    · simp [isDocumentedBy_iff.mpr (Or.inl above), above]
    by_cases beside : c.IsBeside p
    · -- What comes after a comment beside the declaration ends too far down to be above it.
      have none : comments.find? (fun c => c.IsAbove p) = none := by
        rw [List.find?_eq_none]
        intro other inside isAbove
        have isAbove := of_decide_eq_true isAbove
        have less := later other inside
        simp only [Comment.IsAbove, Comment.IsBeside] at isAbove beside
        omega
      simp [isDocumentedBy_iff.mpr (Or.inr beside), above, beside, none]
    · have unmatched : p.isDocumentedBy c = false :=
        Bool.eq_false_iff.mpr fun documented => (isDocumentedBy_iff.mp documented).elim above beside
      simpa only [unmatched, above, beside, decide_false, Placement.comment?] using ih ordered

/-- Among comments in order, one above the declaration is its match, and one beside it is if there is
none above. -/
theorem comment?_eq_some_iff {c : Comment} (ordered : EndInOrder comments)
    (top : p.topLine ≤ p.range.start.line) (member : c ∈ comments) :
    p.comment? comments = some c ↔
      c.IsAbove p ∨ c.IsBeside p ∧ ∀ other ∈ comments, ¬ other.IsAbove p := by
  rw [comment?_eq_or ordered top, Option.or_eq_some_iff, List.find?_eq_none,
    ordered.find?_eq_some_iff stop_line_eq_of_isAbove member,
    ordered.find?_eq_some_iff stop_line_eq_of_isBeside member]
  simp only [decide_eq_true_iff]
  rw [and_comm]

end Chosen

/-- The first node ends before the second one starts, on the same line only if it is a declaration on
a single line. -/
structure Outline.Precedes (first second : Outline) : Prop where
  stop_le : first.range.stop.line ≤ second.range.start.line
  line_le : second.range.start.line ≤ second.range.stop.line
  stop_lt : first.isOneLine = false → first.range.stop.line < second.range.start.line

theorem Outline.Precedes.trans {first second third : Outline} (left : first.Precedes second)
    (right : second.Precedes third) : first.Precedes third := by
  refine ⟨?_, right.line_le, ?_⟩
  · exact Nat.le_trans left.stop_le (Nat.le_trans left.line_le right.stop_le)
  · intro block
    exact Nat.lt_of_lt_of_le (left.stop_lt block) (Nat.le_trans left.line_le right.stop_le)

instance : Trans Outline.Precedes Outline.Precedes Outline.Precedes where
  trans := Outline.Precedes.trans

section Siblings

variable {lines : List (List Char)} {roots siblings : List Outline}

theorem precedes_of_follows {first second : Outline} (follows : first.Follows lines second)
    (placed : second.Placed lines) : first.Precedes second := by
  rcases follows with before | ⟨oneLine, c, rfl, trailing, line⟩
  · exact ⟨Nat.le_of_lt before, placed.line_le, fun _ => before⟩
  · refine ⟨Nat.le_of_eq line.symm, placed.line_le, ?_⟩
    intro block
    rw [oneLine] at block
    cases block

/-- The comments of a list of siblings in order are in order themselves. -/
theorem commentsOf_endInOrder (ordered : siblings.IsChain (Outline.Follows lines))
    (placed : ∀ node ∈ siblings, node.Placed lines) : EndInOrder (commentsOf siblings) := by
  have chain : siblings.IsChain Outline.Precedes := by
    apply ordered.imp_of_mem_imp
    intro first second _ member follows
    exact precedes_of_follows follows (placed second member)
  apply List.Pairwise.filterMap Outline.comment? _ chain.pairwise
  intro first second precedes c isFirst d isSecond
  cases first with
  | decl header placement body => cases isFirst
  | comment first =>
    cases second with
    | decl header placement body => cases isSecond
    | comment second =>
      cases isFirst
      cases isSecond
      exact Nat.lt_of_lt_of_le (precedes.stop_lt rfl) precedes.line_le

theorem mem_commentsOf {c : Comment} : c ∈ commentsOf siblings ↔ .comment c ∈ siblings := by
  rw [commentsOf, List.mem_filterMap]
  constructor
  · rintro ⟨node, member, found⟩
    cases node with
    | comment d =>
      cases found
      exact member
    | decl header placement body => cases found
  · intro member
    exact ⟨.comment c, member, rfl⟩

theorem topLine_mem_marks (p : Placement) : p.topLine ∈ p.marks := by
  rw [Placement.topLine, Placement.marks]
  cases p.annotations with
  | nil => simp
  | cons a more => simp

theorem start_mem_marks (p : Placement) : p.range.start.line ∈ p.marks := by
  rw [Placement.marks]
  exact List.mem_append_right _ (List.mem_singleton.mpr rfl)

theorem Outlined.topLine_le (outlined : Outlined lines roots) {header : Header} {p : Placement}
    (inside : (header, p) ∈ declarationsOf roots) : p.topLine ≤ p.range.start.line := by
  have increasing := outlined.increasing.sublist (marks_sublist inside)
  rw [Placement.marks] at increasing
  rw [Placement.topLine]
  cases found : p.annotations with
  | nil => exact Nat.le_refl _
  | cons a more =>
    rw [found] at increasing
    have before := (List.pairwise_append.mp increasing).2.2 a.range.start.line (by simp)
    exact Nat.le_of_lt (before _ (List.mem_singleton.mpr rfl))

/-- Two declarations of an outline that share a marked line are the same. -/
theorem Outlined.eq_of_shared_mark (outlined : Outlined lines roots)
    {first second : Header × Placement} (isFirst : first ∈ declarationsOf roots)
    (isSecond : second ∈ declarationsOf roots) {mark : Nat} (ofFirst : mark ∈ first.2.marks)
    (ofSecond : mark ∈ second.2.marks) : first = second := by
  have apart := (List.pairwise_flatMap.mp outlined.increasing).2
  generalize declarationsOf roots = declarations at isFirst isSecond apart
  induction declarations with
  | nil => cases isFirst
  | cons found more ih =>
    have rest := List.pairwise_cons.mp apart
    rcases List.mem_cons.mp isFirst with same | firstLater
    · rcases List.mem_cons.mp isSecond with again | secondLater
      · rw [same, again]
      · rw [same] at ofFirst
        exact absurd (rest.1 second secondLater mark ofFirst mark ofSecond) (Nat.lt_irrefl mark)
    · rcases List.mem_cons.mp isSecond with again | secondLater
      · rw [again] at ofSecond
        exact absurd (rest.1 first firstLater mark ofSecond mark ofFirst) (Nat.lt_irrefl mark)
      · exact ih firstLater secondLater rest.2

/-- A comment that is all comment lines is not beside a declaration. -/
theorem not_isBeside_of_isFullLine {c : Comment} {header : Header} {placement : Placement}
    (valid : c.range.Valid lines) (full : c.IsFullLine lines)
    (declared : header.PlacedAt lines placement) : ¬ c.IsBeside placement := by
  intro beside
  obtain ⟨line, here, comment⟩ := full c.range.stop.line valid.line_le (Nat.le_refl _)
  obtain ⟨text, there, code, -⟩ := declared.read
  rw [show c.range.stop.line = placement.range.start.line from beside, there] at here
  cases here
  rw [code] at comment
  cases comment

end Siblings

section Matches

variable {lines : List (List Char)} {roots : List Outline}

/-- What a declaration in a list of siblings is matched with. -/
theorem Outlined.comment?_eq_some_iff {siblings body : List Outline}
    {owner : Option (Header × Placement)} {header : Header} {placement : Placement} {c : Comment}
    (outlined : Outlined lines roots) (reached : SiblingList roots owner siblings)
    (member : .decl header placement body ∈ siblings) (listed : c ∈ commentsOf siblings) :
    placement.comment? (commentsOf siblings) = some c ↔
      c.IsAbove placement ∨
        c.IsBeside placement ∧ ∀ other ∈ commentsOf siblings, ¬ other.IsAbove placement := by
  obtain ⟨ordered, -, placed⟩ := outlined.siblings reached
  have top := outlined.topLine_le (reached.declarations_subset _ (mem_declarationsOf member).1)
  exact BrightDoc.comment?_eq_some_iff (commentsOf_endInOrder ordered placed) top listed

/-- A comment beside a declaration is a trailing one. -/
theorem Outlined.isTrailing_of_isBeside {siblings : List Outline}
    {owner : Option (Header × Placement)} {found : Header × Placement} {c : Comment}
    (outlined : Outlined lines roots) (reached : SiblingList roots owner siblings)
    (listed : .comment c ∈ siblings) (inside : found ∈ declarationsOf roots)
    (beside : c.IsBeside found.2) : c.IsTrailing lines := by
  cases (outlined.siblings reached).2.2 _ listed with
  | comment placed =>
    rcases placed.sort with trailing | full
    · exact trailing
    · exact absurd beside (not_isBeside_of_isFullLine placed.valid full (outlined.declared inside))

/-- Two declarations that are matched with one comment are the same, or the comment is beside the one
and above the other. -/
theorem Outlined.eq_or_isBeside {first second : Header × Placement} {c : Comment}
    (outlined : Outlined lines roots) (isFirst : first ∈ declarationsOf roots)
    (isSecond : second ∈ declarationsOf roots) (matchesFirst : c.IsAbove first.2 ∨ c.IsBeside first.2)
    (matchesSecond : c.IsAbove second.2 ∨ c.IsBeside second.2) :
    first = second ∨ c.IsBeside first.2 ∧ c.IsAbove second.2 ∨
      c.IsAbove first.2 ∧ c.IsBeside second.2 := by
  rcases matchesFirst with aboveFirst | besideFirst
  · rcases matchesSecond with aboveSecond | besideSecond
    · left
      apply outlined.eq_of_shared_mark isFirst isSecond (topLine_mem_marks first.2)
      rw [show first.2.topLine = second.2.topLine from aboveFirst.symm.trans aboveSecond]
      exact topLine_mem_marks second.2
    · exact Or.inr (Or.inr ⟨aboveFirst, besideSecond⟩)
  · rcases matchesSecond with aboveSecond | besideSecond
    · exact Or.inr (Or.inl ⟨besideFirst, aboveSecond⟩)
    · left
      apply outlined.eq_of_shared_mark isFirst isSecond (start_mem_marks first.2)
      rw [show first.2.range.start.line = second.2.range.start.line from
        besideFirst.symm.trans besideSecond]
      exact start_mem_marks second.2

end Matches

/-- A trailing comment is matched with a declaration on another line exactly if it ends just above it,
and with the declaration on its own line exactly if no comment ends just above that. A comment that two
declarations are matched with is a trailing one, beside the one and just above the other. -/
theorem trailing_comment_matches (dialect : Dialect) (source : String) (statements : List Statement)
    (parsed : (parse dialect source).result = .ok statements) :
    (∀ owner siblings header placement body, SiblingList (outlines statements) owner siblings →
      .decl header placement body ∈ siblings → ∀ c ∈ commentsOf siblings,
      c.IsTrailing (Text.lines source.toList) →
        (¬ c.IsBeside placement →
          (placement.comment? (commentsOf siblings) = some c ↔ c.IsAbove placement)) ∧
        (c.IsBeside placement →
          (placement.comment? (commentsOf siblings) = some c ↔
            ∀ other ∈ commentsOf siblings, ¬ other.IsAbove placement))) ∧
    (∀ owner₁ owner₂ siblings₁ siblings₂ header₁ header₂ placement₁ placement₂ body₁ body₂ c,
      SiblingList (outlines statements) owner₁ siblings₁ →
      SiblingList (outlines statements) owner₂ siblings₂ →
      .decl header₁ placement₁ body₁ ∈ siblings₁ → .decl header₂ placement₂ body₂ ∈ siblings₂ →
      placement₁.comment? (commentsOf siblings₁) = some c →
      placement₂.comment? (commentsOf siblings₂) = some c →
        (header₁, placement₁) = (header₂, placement₂) ∨
          c.IsTrailing (Text.lines source.toList) ∧
            (c.IsBeside placement₁ ∧ c.IsAbove placement₂ ∨
              c.IsAbove placement₁ ∧ c.IsBeside placement₂)) := by
  have outlined := outlined_of_parse parsed
  refine ⟨?_, ?_⟩
  · intro owner siblings header placement body reached member c listed trailing
    have matched := outlined.comment?_eq_some_iff reached member listed
    have top := outlined.topLine_le (reached.declarations_subset _ (mem_declarationsOf member).1)
    refine ⟨?_, ?_⟩
    · intro elsewhere
      rw [matched]
      exact ⟨fun either => either.resolve_right fun beside => elsewhere beside.1, Or.inl⟩
    · intro beside
      have notAbove : ¬ c.IsAbove placement := by
        simp only [Comment.IsAbove, Comment.IsBeside] at beside ⊢
        omega
      rw [matched]
      exact ⟨fun either => (either.resolve_left notAbove).2, fun none => Or.inr ⟨beside, none⟩⟩
  · intro owner₁ owner₂ siblings₁ siblings₂ header₁ header₂ placement₁ placement₂ body₁ body₂ c
      reached₁ reached₂ member₁ member₂ matched₁ matched₂
    have inside₁ := reached₁.declarations_subset _ (mem_declarationsOf member₁).1
    have inside₂ := reached₂.declarations_subset _ (mem_declarationsOf member₂).1
    have listed : .comment c ∈ siblings₁ := mem_commentsOf.mp (List.mem_of_find?_eq_some matched₁)
    rcases outlined.eq_or_isBeside inside₁ inside₂ (isDocumentedBy_iff.mp (List.find?_some matched₁))
      (isDocumentedBy_iff.mp (List.find?_some matched₂)) with same | both | both
    · exact Or.inl same
    · exact Or.inr ⟨outlined.isTrailing_of_isBeside reached₁ listed inside₁ both.1, Or.inl both⟩
    · exact Or.inr ⟨outlined.isTrailing_of_isBeside reached₁ listed inside₂ both.2, Or.inr both⟩

/-- With an empty line between them, each of two constants is matched with its own comment. -/
theorem apart_constant_matches :
    let own : Comment := { text := "' about B", range := .onLine 2 12 21 }
    let placement : Placement := { range := .onLine 2 0 11 }
    ∃ statements,
      (parse .brighterScript "const A = 1 ' about A\n\nconst B = 2 ' about B").result = .ok statements ∧
      placement.comment? (commentsOf (outlines statements)) = some own := by
  intro own placement
  let constA : Statement :=
    .constDecl { name := "A", value := .literal "1", placement := { range := .onLine 0 0 11 } }
  let constB : Statement := .constDecl { name := "B", value := .literal "2", placement }
  let aboutA : Comment := { text := "' about A", range := .onLine 0 12 21 }
  have parsed : (parse .brighterScript "const A = 1 ' about A\n\nconst B = 2 ' about B").result =
      .ok [constA, .comment aboutA, constB, .comment own] := by rfl
  refine ⟨_, parsed, ?_⟩
  have matched := (trailing_comment_matches _ _ _ parsed).1 none _ _ placement [] .root
    (List.mem_of_getElem? (i := 2) rfl) own (by decide)
    ⟨2, "const B = 2 ".toList, "' about B".toList, [], rfl, by decide, ⟨'c', by decide, by decide⟩,
      by decide, rfl⟩
  exact (matched.2 rfl).mpr (by decide)

/-- Without it, both are matched with the comment of the first one. -/
theorem adjacent_constant_takes_comment :
    let source := "const A = 1 ' about A\nconst B = 2 ' about B"
    let aboutA : Comment := { text := "' about A", range := .onLine 0 12 21 }
    let aboutB : Comment := { text := "' about B", range := .onLine 1 12 21 }
    let constA : ConstDecl :=
      { name := "A", value := .literal "1", placement := { range := .onLine 0 0 11 } }
    let constB : ConstDecl :=
      { name := "B", value := .literal "2", placement := { range := .onLine 1 0 11 } }
    let statements : List Statement :=
      [.constDecl constA, .comment aboutA, .constDecl constB, .comment aboutB]
    (parse .brighterScript source).result = .ok statements ∧
      aboutA.IsTrailing (Text.lines source.toList) ∧ aboutB.IsTrailing (Text.lines source.toList) ∧
      aboutA.IsBeside constA.placement ∧ ¬ aboutA.IsBeside constB.placement ∧
      aboutB.IsBeside constB.placement ∧
      constA.placement.comment? (commentsOf (outlines statements)) = some aboutA ∧
      constB.placement.comment? (commentsOf (outlines statements)) = some aboutA := by
  refine ⟨rfl, ?_, ?_, rfl, by decide, rfl, by decide, by decide⟩
  · exact ⟨0, "const A = 1 ".toList, "' about A".toList, [], rfl, by decide,
      ⟨'c', by decide, by decide⟩, by decide, rfl⟩
  · exact ⟨1, "const B = 2 ".toList, "' about B".toList, [], rfl, by decide,
      ⟨'c', by decide, by decide⟩, by decide, rfl⟩

/-- A declaration is matched with the comment that ends just above it and its annotations if its list
has one, else with the comment that ends on its first line if its list has one, else with none. There
is never a choice: no list has two comments above a declaration, or two beside it. -/
theorem comment_above_beats_beside (dialect : Dialect) (source : String)
    (statements : List Statement) (parsed : (parse dialect source).result = .ok statements) :
    ∀ owner siblings header placement body, SiblingList (outlines statements) owner siblings →
      .decl header placement body ∈ siblings →
      let above := (commentsOf siblings).filter fun c => c.IsAbove placement
      let beside := (commentsOf siblings).filter fun c => c.IsBeside placement
      placement.comment? (commentsOf siblings) = above.head?.or beside.head? ∧
        above.length ≤ 1 ∧ beside.length ≤ 1 := by
  intro owner siblings header placement body reached member above beside
  have outlined := outlined_of_parse parsed
  obtain ⟨chain, -, placed⟩ := outlined.siblings reached
  have ordered := commentsOf_endInOrder chain placed
  have top := outlined.topLine_le (reached.declarations_subset _ (mem_declarationsOf member).1)
  refine ⟨?_, ordered.length_filter_le_one stop_line_eq_of_isAbove,
    ordered.length_filter_le_one stop_line_eq_of_isBeside⟩
  rw [List.head?_filter, List.head?_filter]
  exact comment?_eq_or ordered top

/-- A constant with a comment above its annotation and one beside it is matched with the first. -/
theorem annotated_constant_keeps_above :
    let above : Comment := { text := "' above", range := .onLine 0 0 7 }
    let beside : Comment := { text := "' beside", range := .onLine 2 12 20 }
    let placement : Placement :=
      { range := .onLine 2 0 11, annotations := [{ name := "old", range := .onLine 1 0 4 }] }
    ∃ statements,
      (parse .brighterScript "' above\n@old\nconst A = 1 ' beside").result = .ok statements ∧
      commentsOf (outlines statements) = [above, beside] ∧
      placement.comment? (commentsOf (outlines statements)) = some above := by
  intro above beside placement
  have parsed : (parse .brighterScript "' above\n@old\nconst A = 1 ' beside").result =
      .ok [.comment above, .constDecl { name := "A", value := .literal "1", placement },
        .comment beside] := by
    with_unfolding_all rfl
  refine ⟨_, parsed, rfl, ?_⟩
  have matched := (comment_above_beats_beside _ _ _ parsed none _ _ placement [] .root
    (List.mem_of_getElem? (i := 1) rfl)).1
  exact matched.trans (by decide)

end BrightDoc
