import BrightDoc.Proofs.Reader.Concatenation
import BrightDoc.Proofs.Reader.Arrangement
import BrightDoc.Proofs.Reader.Declared
import BrightDoc.Proofs.Reader.Indifference

/-! # What the dialects tell apart

The readers of the two dialects go in step: every line takes them to the same state, or both fail with
the same error, and they differ only in what they report (`ReaderState.step_brighterScript`). The simpler
dialect reports the features of the richer one besides: every annotation, and every class, interface,
enum, constant and namespace, in the order of the text. -/

namespace BrightDoc

/-- Whether a warning is about a feature that only the richer dialect has. -/
def Warning.isDialectFeature : Warning → Bool
  | annotationLine _ => true
  | declaration _ _ => true
  | openValue _ _ => false

/-- The text of a warning says whether it is about a feature of the richer dialect. -/
theorem Warning.isDialectFeature_iff (w : Warning) :
    w.isDialectFeature = true ↔ w.message = "annotations are a BrighterScript feature" ∨
      ∃ word, w.message = "'" ++ word ++ "' is a BrighterScript feature; parsing it anyway" := by
  cases w with
  | annotationLine line => simp [isDialectFeature, message]
  | declaration word line => exact ⟨fun _ => Or.inr ⟨word, rfl⟩, fun _ => rfl⟩
  | openValue member line =>
    -- The text starts with another letter than both others.
    have first : (openValue member line).message.toList.head? = some 'e' := by
      simp [message]
    constructor
    · intro feature
      cases feature
    · rintro (same | ⟨word, same⟩)
      · rw [same] at first
        exact absurd first (by decide)
      · rw [same] at first
        simp at first

namespace Outcome

variable {α β : Type}

/-- The outcome without its warnings about features of the richer dialect. -/
def withoutFeatures (outcome : Outcome α) : Outcome α :=
  { outcome with warnings := outcome.warnings.filter fun w => !w.isDialectFeature }

@[simp] theorem withoutFeatures_ok (value : α) : (ok value).withoutFeatures = ok value := rfl

@[simp] theorem withoutFeatures_fail (error : ParseError) :
    (fail error : Outcome α).withoutFeatures = fail error := rfl

/-- One dialect warns of a feature where the other one takes it. -/
theorem feature_brighterScript {warning : Warning} (isFeature : warning.isDialectFeature = true)
    {outcome : Outcome α} (plain : outcome.withoutFeatures = outcome) :
    outcome.feature .brighterScript warning =
      (outcome.feature .brightScript warning).withoutFeatures := by
  have kept : outcome.warnings.filter (fun w => !w.isDialectFeature) = outcome.warnings :=
    congrArg warnings plain
  rw [feature, feature, withoutFeatures, warn, List.filter_cons_of_neg (by simp [isFeature]), kept]

theorem withoutFeatures_andThen (outcome : Outcome α) (next : α → Outcome β) :
    (outcome.andThen next).withoutFeatures =
      outcome.withoutFeatures.andThen fun value => (next value).withoutFeatures := by
  obtain ⟨warnings, result⟩ := outcome
  cases result with
  | error error => rfl
  | ok value => simp only [andThen, withoutFeatures, List.filter_append]

end Outcome

namespace ReaderState

variable (s : ReaderState) (l : SourceLine)

theorem annotationLine_brighterScript (name : List Char) :
    s.annotationLine .brighterScript l name =
      (s.annotationLine .brightScript l name).withoutFeatures := rfl

theorem withoutFeatures_endNamespace (word : List Char) :
    (s.endNamespace l word).withoutFeatures = s.endNamespace l word := by
  unfold endNamespace
  repeat' split
  all_goals rfl

theorem withoutFeatures_declare (word : List Char) :
    (s.declare l word).withoutFeatures = s.declare l word := by
  unfold declare
  repeat' split
  all_goals rfl

theorem withoutFeatures_enumLine (b : OpenBlock EnumItem) (next : Option Int) :
    (s.enumLine b next l).withoutFeatures = s.enumLine b next l := by
  unfold enumLine
  dsimp only
  repeat' split
  all_goals rfl

theorem statementLine_brighterScript :
    s.statementLine .brighterScript l = (s.statementLine .brightScript l).withoutFeatures := by
  unfold statementLine
  split
  · exact s.annotationLine_brighterScript l _
  split
  · exact (s.withoutFeatures_endNamespace l _).symm
  split
  · split <;> rfl
  split
  · rfl
  split
  · exact Outcome.feature_brighterScript rfl (s.withoutFeatures_declare l _)
  · rfl

theorem classLine_brighterScript (b : OpenBlock ClassItem) :
    s.classLine .brighterScript b l = (s.classLine .brightScript b l).withoutFeatures := by
  unfold classLine
  split
  · exact s.annotationLine_brighterScript l _
  repeat' split
  all_goals rfl

theorem interfaceLine_brighterScript (b : OpenBlock InterfaceItem) :
    s.interfaceLine .brighterScript b l = (s.interfaceLine .brightScript b l).withoutFeatures := by
  unfold interfaceLine
  split
  · exact s.annotationLine_brighterScript l _
  dsimp only
  repeat' split
  all_goals rfl

theorem blockLine_brighterScript :
    s.blockLine .brighterScript l = (s.blockLine .brightScript l).withoutFeatures := by
  unfold blockLine
  split
  · exact s.classLine_brighterScript l _
  · exact s.interfaceLine_brighterScript l _
  · exact (s.withoutFeatures_enumLine l _ _).symm
  · exact s.statementLine_brighterScript l

/-- In both dialects a line leads to the same state or the same error, and what the richer one reports
of it is what the other one reports without the features. -/
theorem step_brighterScript :
    s.step .brighterScript l = (s.step .brightScript l).withoutFeatures := by
  have outer : s.gather l (blockLine .brighterScript) =
      (s.gather l (blockLine .brightScript)).withoutFeatures := by
    unfold gather
    split
    · rfl
    split
    · rfl
    · exact s.closeRun.blockLine_brighterScript l
  unfold step
  split
  · split <;> rfl
  · split <;> rfl
  · exact outer

end ReaderState

/-- The readers of the two dialects go through the same states. -/
theorem readFrom_brighterScript (lines : List (List Char)) :
    ∀ (index : Nat) (s : ReaderState), readFrom .brighterScript index s lines =
      (readFrom .brightScript index s lines).withoutFeatures := by
  induction lines with
  | nil => exact fun _ _ => rfl
  | cons text more ih =>
    intro index s
    rw [readFrom, readFrom, s.step_brighterScript, Outcome.withoutFeatures_andThen]
    congr 1
    funext t
    exact ih (index + 1) t

/-- The dialect changes only the warnings: both dialects give the same tree or the same error, and the
warnings of the richer one are those of the simpler one without the ones about its features, in the same
order. The removed ones are told by their texts. -/
theorem dialect_changes_only_warnings (source : String) :
    (parse .brighterScript source).result = (parse .brightScript source).result ∧
    (parse .brighterScript source).warnings =
      (parse .brightScript source).warnings.filter (fun w => !w.isDialectFeature) ∧
    ∀ w ∈ (parse .brightScript source).warnings, w.isDialectFeature = true ↔
      w.message = "annotations are a BrighterScript feature" ∨
        ∃ word, w.message = "'" ++ word ++ "' is a BrighterScript feature; parsing it anyway" := by
  have same : parse .brighterScript source = (parse .brightScript source).withoutFeatures := by
    rw [parse, parse, readLines, readLines, readFrom_brighterScript, Outcome.withoutFeatures_andThen]
    rfl
  rw [same]
  exact ⟨rfl, rfl, fun w _ => w.isDialectFeature_iff⟩

/-- Whether only the richer dialect has such declarations. -/
def Header.isFeature : Header → Bool
  | classDecl .. | interfaceDecl .. | enumDecl .. | constDecl .. | namespaceDecl .. => true
  | _ => false

/-- The line of a declaration that only the richer dialect has, if the warning is about one. -/
def Warning.declarationLine? : Warning → Option Nat
  | declaration _ line => some line
  | _ => none

/-- The first lines, counted from one, of the declarations that only the richer dialect has. -/
def featureLines (nodes : List Outline) : List Nat :=
  ((declarationsOf nodes).filter fun found => found.1.isFeature).map fun found =>
    found.2.range.start.line + 1

theorem featureLines_append (first second : List Outline) :
    featureLines (first ++ second) = featureLines first ++ featureLines second := by
  rw [featureLines, declarationsOf_append, List.filter_append, List.map_append]
  rfl

@[simp] theorem featureLines_nil : featureLines [] = [] := by
  simp [featureLines, declarationsOf]

@[simp] theorem featureLines_comment (c : Comment) : featureLines [.comment c] = [] := by
  simp [featureLines, declarationsOf, Outline.declarations]

theorem featureLines_decl (header : Header) (placement : Placement) (body : List Outline) :
    featureLines [.decl header placement body] =
      (if header.isFeature then [placement.range.start.line + 1] else []) ++ featureLines body := by
  simp only [featureLines, declarationsOf, Outline.declarations, List.append_nil, List.filter_cons]
  split <;> rfl

/-- The members of a block are in every dialect. -/
theorem featureLines_members {Item : Type} {outline : Item → Outline}
    (plain : ∀ item, featureLines [outline item] = []) (items : List Item) :
    featureLines (items.map outline) = [] := by
  induction items with
  | nil => exact featureLines_nil
  | cons item more ih =>
    rw [List.map_cons, ← List.singleton_append, featureLines_append, plain, ih]
    rfl

theorem ClassItem.featureLines_outline (item : ClassItem) : featureLines [item.outline] = [] := by
  cases item with
  | comment c => exact featureLines_comment c
  | field f => rw [outline, featureLines_decl, featureLines_nil]; rfl
  | method m => rw [outline, featureLines_decl, featureLines_nil]; rfl

theorem InterfaceItem.featureLines_outline (item : InterfaceItem) :
    featureLines [item.outline] = [] := by
  cases item with
  | comment c => exact featureLines_comment c
  | field f => rw [outline, featureLines_decl, featureLines_nil]; rfl
  | method f => rw [outline, featureLines_decl, featureLines_nil]; rfl

theorem EnumItem.featureLines_outline (item : EnumItem) : featureLines [item.outline] = [] := by
  cases item with
  | comment c => exact featureLines_comment c
  | member m => rw [outline, featureLines_decl, featureLines_nil]; rfl

section Statements

open Statement

@[simp] theorem featureLines_function (f : FunctionDecl) :
    featureLines [(Statement.function f).outline] = [] := by
  rw [outline, featureLines_decl, featureLines_nil]
  rfl

@[simp] theorem featureLines_classDecl (c : ClassDecl) :
    featureLines [(classDecl c).outline] = [c.placement.range.start.line + 1] := by
  rw [outline, featureLines_decl, featureLines_members ClassItem.featureLines_outline]
  rfl

@[simp] theorem featureLines_interfaceDecl (i : InterfaceDecl) :
    featureLines [(interfaceDecl i).outline] = [i.placement.range.start.line + 1] := by
  rw [outline, featureLines_decl, featureLines_members InterfaceItem.featureLines_outline]
  rfl

@[simp] theorem featureLines_enumDecl (e : EnumDecl) :
    featureLines [(enumDecl e).outline] = [e.placement.range.start.line + 1] := by
  rw [outline, featureLines_decl, featureLines_members EnumItem.featureLines_outline]
  rfl

@[simp] theorem featureLines_constDecl (c : ConstDecl) :
    featureLines [(constDecl c).outline] = [c.placement.range.start.line + 1] := by
  rw [outline, featureLines_decl, featureLines_nil]
  rfl

@[simp] theorem featureLines_namespaceDecl (head : NamespaceHead) (body : List Statement) :
    featureLines [(namespaceDecl head body).outline] =
      (head.placement.range.start.line + 1) :: featureLines (body.map Statement.outline) := by
  rw [outline, featureLines_decl, outlines_eq_map]
  rfl

end Statements

/-- The lines of the features among some statements, given newest first. -/
def statementFeatures (items : List Statement) : List Nat :=
  featureLines (items.reverse.map Statement.outline)

theorem statementFeatures_append (added items : List Statement) :
    statementFeatures (added ++ items) = statementFeatures items ++ statementFeatures added := by
  rw [statementFeatures, List.reverse_append, List.map_append, featureLines_append]
  rfl

theorem statementFeatures_cons (statement : Statement) (items : List Statement) :
    statementFeatures (statement :: items) =
      statementFeatures items ++ featureLines [statement.outline] := by
  rw [← List.singleton_append, statementFeatures_append]
  rfl

@[simp] theorem statementFeatures_trailing (l : SourceLine) :
    statementFeatures (l.trailing?.map Statement.comment).toList = [] := by
  cases l.trailing? with
  | none => exact featureLines_nil
  | some c => simp [statementFeatures, Statement.outline]

/-- The lines of the features in the lists of statements around the innermost one. -/
def frameFeatures : List NamespaceFrame → List Nat
  | [] => []
  | f :: outer => frameFeatures outer ++ (statementFeatures f.before ++ [f.start.line + 1])

/-- The line of the feature whose body the next line belongs to. -/
def Focus.features : Focus → List Nat
  | statements | functionBody _ _ => []
  | classBody b | methodBody b _ _ => [b.start.line + 1]
  | interfaceBody b => [b.start.line + 1]
  | enumBody b _ => [b.start.line + 1]

namespace ReaderState

/-- The lines of the features that have been read. -/
def features (s : ReaderState) : List Nat :=
  frameFeatures s.frames ++ (statementFeatures s.items ++ s.focus.features)

theorem features_addComment (s : ReaderState) (l : SourceLine) :
    (s.addComment l).features = s.features := by
  obtain ⟨frames, items, focus, run, pending⟩ := s
  cases run <;> rfl

theorem features_closeRun (s : ReaderState) : s.closeRun.features = s.features := by
  obtain ⟨frames, items, focus, run, pending⟩ := s
  cases run with
  | none => rfl
  | some c =>
    cases focus with
    | statements =>
      simp only [features, closeRun, pushComment, statementFeatures_cons, Statement.outline,
        featureLines_comment, List.append_nil]
    | _ => rfl

end ReaderState

/-- What an outcome tells of a state: the lines of the features that it adds are those that it warns
of, and it warns of every annotation that comes to wait. -/
def Tells (s : ReaderState) (outcome : Outcome ReaderState) : Prop :=
  ∀ t, outcome.result = .ok t →
    t.features = s.features ++ outcome.warnings.filterMap Warning.declarationLine? ∧
    ∀ a ∈ t.pending, a ∈ s.pending ∨ .annotationLine (a.range.start.line + 1) ∈ outcome.warnings

section Telling

variable {s t : ReaderState} {l : SourceLine}

theorem tells_fail (error : ParseError) : Tells s (.fail error) := by
  intro t done
  cases done

/-- A state without new features in which nothing new waits needs no warning. -/
theorem tells_ok (same : t.features = s.features)
    (kept : t.pending = s.pending ∨ t.pending = []) : Tells s (.ok t) := by
  intro u done
  cases done
  refine ⟨same.trans (List.append_nil _).symm, ?_⟩
  intro a waits
  rcases kept with kept | dropped
  · exact Or.inl (kept ▸ waits)
  · rw [dropped] at waits
    cases waits

/-- A warning about something else changes nothing. -/
theorem tells_warn {warning : Warning} {outcome : Outcome ReaderState}
    (other : warning.declarationLine? = none) (told : Tells s outcome) :
    Tells s (outcome.warn warning) := by
  intro t done
  obtain ⟨features, pending⟩ := told t done
  refine ⟨?_, ?_⟩
  · rw [Outcome.warn, List.filterMap_cons_none other]
    exact features
  · intro a waits
    exact (pending a waits).imp_right fun warned => List.mem_cons_of_mem _ warned

theorem tells_annotation (s : ReaderState) (l : SourceLine) (name : List Char) :
    Tells s (s.annotationLine .brightScript l name) := by
  intro t done
  cases done
  refine ⟨(List.append_nil _).symm, ?_⟩
  intro a waits
  rcases List.mem_append.mp waits with old | new
  · exact Or.inl old
  · rw [List.mem_singleton.mp new]
    exact Or.inr List.mem_cons_self

theorem tells_endNamespace (atStatements : s.focus = .statements) (word : List Char) :
    Tells s (s.endNamespace l word) := by
  obtain ⟨frames, items, focus, run, pending⟩ := s
  subst atStatements
  unfold ReaderState.endNamespace
  split
  · rename_i frame outer same
    cases same
    split
    · refine tells_ok ?_ (Or.inl rfl)
      simp only [ReaderState.features, statementFeatures_cons, featureLines_namespaceDecl,
        frameFeatures, Focus.features, List.append_nil, List.append_assoc]
      rfl
    · exact tells_fail _
  · exact tells_fail _

theorem tells_feature (word : String) (added : t.features = s.features ++ [l.number])
    (taken : t.pending = []) :
    Tells s (.feature .brightScript (.declaration word l.number) (.ok t)) := by
  intro u done
  cases done
  refine ⟨added, ?_⟩
  intro a waits
  rw [taken] at waits
  cases waits

theorem tells_refused (warning : Warning) (error : ParseError) :
    Tells s (.feature .brightScript warning (.fail error)) := by
  intro t done
  cases done

theorem features_openBlock {Item : Type} (atStatements : s.focus = .statements) (name : List Char)
    (parent : Option (List Char)) (comment : Comment → Item) {focus : OpenBlock Item → Focus}
    (feature : ∀ b, (focus b).features = [b.start.line + 1]) :
    (s.openBlock l name parent comment focus).features = s.features ++ [l.number] := by
  rw [ReaderState.features, ReaderState.features, atStatements, List.append_assoc,
    List.append_assoc]
  simp only [ReaderState.openBlock, feature]
  rfl

/-- A line with the keyword of a declaration that is taken adds one feature. -/
theorem tells_declare (atStatements : s.focus = .statements) (word : List Char) :
    Tells s
      (.feature .brightScript (.declaration (String.ofList word) l.number) (s.declare l word)) := by
  unfold ReaderState.declare
  split
  · split
    · exact tells_feature _ (features_openBlock atStatements _ _ _ fun b => rfl) rfl
    · exact tells_refused _ _
  split
  · split
    · exact tells_feature _ (features_openBlock atStatements _ _ _ fun b => rfl) rfl
    · exact tells_refused _ _
  split
  · split
    · exact tells_feature _ (features_openBlock atStatements _ _ _ fun b => rfl) rfl
    · exact tells_refused _ _
  split
  · split
    · refine tells_feature _ ?_ rfl
      simp only [ReaderState.features, ReaderState.openNamespace, atStatements, frameFeatures,
        statementFeatures_trailing, Focus.features, List.append_nil, List.append_assoc]
      rfl
    · exact tells_refused _ _
  · split
    · refine tells_feature _ ?_ rfl
      simp only [ReaderState.features, atStatements, statementFeatures_append,
        statementFeatures_cons, statementFeatures_trailing, featureLines_constDecl, Focus.features,
        List.append_nil, List.append_assoc]
      rfl
    · exact tells_refused _ _

theorem tells_statementLine (atStatements : s.focus = .statements) :
    Tells s (s.statementLine .brightScript l) := by
  unfold ReaderState.statementLine
  split
  · exact tells_annotation s l _
  split
  · exact tells_endNamespace atStatements _
  split
  · split
    · refine tells_ok ?_ (Or.inr rfl)
      simp only [ReaderState.features, atStatements, Focus.features]
    · exact tells_fail _
  split
  · exact tells_fail _
  split
  · exact tells_declare atStatements _
  · exact tells_ok rfl (Or.inr rfl)

theorem tells_classLine {b : OpenBlock ClassItem} (inClass : s.focus = .classBody b) :
    Tells s (s.classLine .brightScript b l) := by
  unfold ReaderState.classLine
  split
  · exact tells_annotation s l _
  split
  · split
    · refine tells_ok ?_ (Or.inl rfl)
      simp only [ReaderState.features, ReaderState.push, inClass, statementFeatures_cons,
        featureLines_classDecl, Focus.features, List.append_nil]
      rfl
    · exact tells_fail _
  split
  · split
    · refine tells_ok ?_ (Or.inr rfl)
      simp only [ReaderState.features, inClass, Focus.features]
    · exact tells_fail _
  split
  · exact tells_fail _
  split
  · refine tells_ok ?_ (Or.inr rfl)
    simp only [ReaderState.features, inClass, Focus.features]
    rfl
  · exact tells_ok rfl (Or.inl rfl)

theorem tells_interfaceLine {b : OpenBlock InterfaceItem} (inInterface : s.focus = .interfaceBody b) :
    Tells s (s.interfaceLine .brightScript b l) := by
  unfold ReaderState.interfaceLine
  split
  · exact tells_annotation s l _
  split
  · split
    · refine tells_ok ?_ (Or.inl rfl)
      simp only [ReaderState.features, ReaderState.push, inInterface, statementFeatures_cons,
        featureLines_interfaceDecl, Focus.features, List.append_nil]
      rfl
    · exact tells_fail _
  dsimp only
  split
  · split
    · refine tells_ok ?_ (Or.inr rfl)
      simp only [ReaderState.features, inInterface, Focus.features]
      rfl
    · exact tells_fail _
  split
  · refine tells_ok ?_ (Or.inr rfl)
    simp only [ReaderState.features, inInterface, Focus.features]
    rfl
  · exact tells_fail _

theorem tells_enumLine {b : OpenBlock EnumItem} {next : Option Int}
    (inEnum : s.focus = .enumBody b next) : Tells s (s.enumLine b next l) := by
  unfold ReaderState.enumLine
  split
  · split
    · refine tells_ok ?_ (Or.inl rfl)
      simp only [ReaderState.features, ReaderState.push, inEnum, statementFeatures_cons,
        featureLines_enumDecl, Focus.features, List.append_nil]
      rfl
    · exact tells_fail _
  split
  · dsimp only
    have added : ∀ (block : OpenBlock EnumItem) (number : Option Int), block.start = b.start →
        Tells s (.ok { s with focus := .enumBody block number }) := by
      intro block number same
      refine tells_ok ?_ (Or.inl rfl)
      simp only [ReaderState.features, inEnum, Focus.features, same]
    split
    · exact tells_warn rfl (added _ _ rfl)
    · exact added _ _ rfl
  · exact tells_fail _

theorem tells_blockLine (outside : s.sketch.inCode = false) :
    Tells s (s.blockLine .brightScript l) := by
  unfold ReaderState.blockLine
  cases found : s.focus with
  | statements => exact tells_statementLine found
  | classBody b => exact tells_classLine found
  | interfaceBody b => exact tells_interfaceLine found
  | enumBody b next => exact tells_enumLine found
  | functionBody f depth =>
    simp only [ReaderState.sketch, ReaderState.levels, found] at outside
    cases outside
  | methodBody b m depth =>
    simp only [ReaderState.sketch, ReaderState.levels, found] at outside
    cases outside

theorem tells_gather (outside : s.sketch.inCode = false) :
    Tells s (s.gather l (ReaderState.blockLine .brightScript)) := by
  unfold ReaderState.gather
  split
  · refine tells_ok (s.features_addComment l) (Or.inl ?_)
    obtain ⟨frames, items, focus, run, pending⟩ := s
    cases run <;> rfl
  split
  · exact tells_ok s.features_closeRun (Or.inl s.closeRun_pending)
  · have told := tells_blockLine (l := l) (s.closeRun_inCode outside)
    unfold Tells at told
    rw [s.features_closeRun, s.closeRun_pending] at told
    exact told

/-- Every line that is taken tells the features that it adds. -/
theorem tells_step (s : ReaderState) (l : SourceLine) : Tells s (s.step .brightScript l) := by
  obtain ⟨frames, items, focus, run, pending⟩ := s
  cases focus with
  | functionBody f depth =>
    unfold ReaderState.step
    dsimp only
    split
    · refine tells_ok ?_ (Or.inl rfl)
      simp only [ReaderState.features, ReaderState.push, statementFeatures_cons,
        featureLines_function, Focus.features, List.append_nil]
    · exact tells_ok rfl (Or.inl rfl)
  | methodBody b m depth =>
    unfold ReaderState.step
    dsimp only
    split
    · exact tells_ok rfl (Or.inl rfl)
    · exact tells_ok rfl (Or.inl rfl)
  | statements =>
    apply tells_gather
    cases frames <;> rfl
  | classBody b => exact tells_gather rfl
  | interfaceBody b => exact tells_gather rfl
  | enumBody b next => exact tells_gather rfl

end Telling

/-- The warnings of two outcomes in a row are those of both, where the first one has a result. -/
theorem Outcome.warnings_andThen {α β : Type} {outcome : Outcome α} {value : α}
    (found : outcome.result = .ok value) (next : α → Outcome β) :
    (outcome.andThen next).warnings = outcome.warnings ++ (next value).warnings := by
  simp only [andThen, found]

/-- Every annotation that waits or has been taken is among the warnings. -/
def ReaderState.Told (warnings : List Warning) (s : ReaderState) : Prop :=
  (∀ a ∈ s.pending, .annotationLine (a.range.start.line + 1) ∈ warnings) ∧
    ∀ head ∈ s.sketch.declared, ∀ a ∈ head.annotations,
      .annotationLine (a.range.start.line + 1) ∈ warnings

theorem ReaderState.Told.step {warnings : List Warning} {s t : ReaderState} {l : SourceLine}
    (told : s.Told warnings) (stepped : (s.step .brightScript l).result = .ok t) :
    t.Told (warnings ++ (s.step .brightScript l).warnings) := by
  refine ⟨?_, ?_⟩
  · intro a waits
    rcases (tells_step s l t stepped).2 a waits with old | new
    · exact List.mem_append_left _ (told.1 a old)
    · exact List.mem_append_right _ new
  · intro head declared a taken
    apply List.mem_append_left
    rcases declares_move (move_of_step stepped) with same | ⟨own, grown, -, annotations⟩
    · exact told.2 head (same ▸ declared) a taken
    · rw [grown, List.mem_append] at declared
      rcases declared with old | new
      · exact told.2 head old a taken
      · rw [List.mem_singleton.mp new] at taken
        rcases annotations with all | none
        · rw [all] at taken
          exact told.1 a taken
        · rw [none] at taken
          cases taken

/-- The warnings of a whole run tell the features that it has read, and all annotations. -/
theorem readFrom_tells (lines : List (List Char)) :
    ∀ (index : Nat) (before : List Warning) (s t : ReaderState),
      (readFrom .brightScript index s lines).result = .ok t → s.Told before →
      t.features = s.features ++
          (readFrom .brightScript index s lines).warnings.filterMap Warning.declarationLine? ∧
        t.Told (before ++ (readFrom .brightScript index s lines).warnings) := by
  induction lines with
  | nil =>
    intro index before s t read told
    cases read
    exact ⟨(List.append_nil _).symm, (List.append_nil before).symm ▸ told⟩
  | cons text more ih =>
    intro index before s t read told
    obtain ⟨u, stepped, rest⟩ := Outcome.andThen_eq_ok read
    obtain ⟨features, toldAfter⟩ := ih (index + 1) _ u t rest (told.step stepped)
    have warnings : (readFrom .brightScript index s (text :: more)).warnings =
        (s.step .brightScript ⟨index, text⟩).warnings ++
          (readFrom .brightScript (index + 1) u more).warnings :=
      Outcome.warnings_andThen stepped _
    rw [warnings, List.filterMap_append, ← List.append_assoc, ← List.append_assoc,
      ← (tells_step s _ u stepped).1]
    exact ⟨features, toldAfter⟩

theorem features_of_finish {t : ReaderState} {statements : List Statement}
    (finished : t.finish = .ok statements) : t.features = featureLines (outlines statements) := by
  obtain ⟨atStatements, noFrames, items⟩ := ReaderState.atStatements_of_finish finished
  have closed : t.closeRun.frames = [] ∧ t.closeRun.focus = .statements := by
    obtain ⟨frames, items, focus, run, pending⟩ := t
    dsimp only at atStatements noFrames
    subst atStatements noFrames
    cases run <;> exact ⟨rfl, rfl⟩
  rw [← t.features_closeRun, ReaderState.features, closed.1, closed.2, statementFeatures, items,
    outlines_eq_map]
  simp only [frameFeatures, Focus.features, List.nil_append, List.append_nil]

/-- In the simpler dialect a text that can be read is reported by the lines of all its classes,
interfaces, enums, constants and namespaces, one by one, and by every annotation. -/
theorem features_reported (source : String) (statements : List Statement)
    (parsed : (parse .brightScript source).result = .ok statements) :
    (parse .brightScript source).warnings.filterMap Warning.declarationLine? =
        featureLines (outlines statements) ∧
      ∀ a ∈ annotationsOf (outlines statements),
        .annotationLine (a.range.start.line + 1) ∈ (parse .brightScript source).warnings := by
  obtain ⟨t, read, finished⟩ := readLines_ok parsed
  have warnings : (parse .brightScript source).warnings =
      (readFrom .brightScript 0 {} (Text.lines source.toList)).warnings := by
    rw [parse, readLines, Outcome.warnings_andThen read, List.append_nil]
  have start : ReaderState.Told [] {} := by
    refine ⟨?_, ?_⟩
    · intro a waits
      cases waits
    · intro head declared
      cases declared
  obtain ⟨features, told⟩ := readFrom_tells _ 0 [] {} t read start
  rw [warnings]
  refine ⟨?_, ?_⟩
  · rw [← features_of_finish finished, features]
    rfl
  · intro a annotates
    obtain ⟨found, inside, taken⟩ := List.mem_flatMap.mp annotates
    have declared : Head.ofDeclaration found ∈ t.sketch.declared := by
      rw [declared_of_finish finished]
      exact List.mem_map_of_mem inside
    exact told.2 _ declared a taken

/-- A class and a constant inside a namespace, and an annotation. -/
example :
    (parse .brightScript
        "namespace ab\n@x\nclass C\nend class\nconst D = 1\nend namespace").warnings.map
      Warning.line = [1, 2, 3, 5] := by decide +kernel

end BrightDoc
