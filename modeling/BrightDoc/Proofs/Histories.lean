import BrightDoc.Proofs.Carrier.Keys
import BrightDoc.Proofs.Sessions
import Mathlib.Data.List.DropRight

/-! # What a request knows of the past

A request sees of the requests before it only which of its own namespaces and modules they declared.
What they declared can be told from their trees: it is what the requests since the last reset declare,
and a text that cannot be read declares nothing. -/

namespace BrightDoc.Session

open BrightDoc.Carrier

/-- The tree of a request; none where it has no text, or one that cannot be read. -/
def Request.tree? : Request → Option (List Statement)
  | convert dialect _ source => (parse dialect source).result.toOption
  | convertFile file => (parse file.dialect file.text).result.toOption
  | emit _ statements => some statements
  | reset | options => none

/-- The module of a request, which is empty where there is none. -/
def Request.moduleName (options : Options) : Request → String
  | convert _ moduleName _ => moduleName
  | convertFile file => file.ownModule options
  | emit moduleName _ => moduleName
  | .reset | .options => ""

/-- What the namespaces are compared by that the tree of a request declares. -/
def Request.spaces (request : Request) : List String :=
  (request.tree?.toList.flatMap (namespacePathsOf "")).map Declared.namespaceKey

/-- What the module is compared by that a request declares, if it declares one. -/
def Request.modules (options : Options) (request : Request) : List String :=
  if options.addModule && request.moduleName options ≠ "" then
    request.tree?.toList.map fun _ => Declared.moduleKey (request.moduleName options)
  else []

theorem asked_eq (options : Options) (request : Request) :
    asked options request =
      request.tree?.toList.flatMap (Converter.entries options (request.moduleName options)) := by
  have ofText : ∀ dialect moduleName source, textEntries options dialect moduleName source =
      (parse dialect source).result.toOption.toList.flatMap
        (Converter.entries options moduleName) := by
    intro dialect moduleName source
    rw [textEntries]
    cases (parse dialect source).result with
    | error e => rfl
    | ok statements => exact (List.append_nil _).symm
  cases request with
  | convert dialect moduleName source => exact ofText dialect moduleName source
  | convertFile file => exact ofText file.dialect _ file.text
  | emit moduleName statements => exact (List.append_nil _).symm
  | reset => rfl
  | options => rfl

/-- The entries of a request declare the namespaces and the module that it does. -/
theorem keys_asked (options : Options) (request : Request) :
    namespaceKeys (asked options request) = request.spaces ∧
      moduleKeys (asked options request) = request.modules options := by
  rw [asked_eq, Request.spaces, Request.modules]
  cases request.tree? with
  | none =>
    refine ⟨rfl, ?_⟩
    split <;> rfl
  | some statements =>
    obtain ⟨namespaces, modules⟩ := keys_planEach options.escapeMarkup
      { inModule := request.moduleName options } (statements.filterMap Statement.comment?) statements
    simp only [Option.toList_some, List.flatMap_cons, List.flatMap_nil, List.append_nil,
      Converter.entries, plan, namespaceKeys_append, moduleKeys_append, namespaceKeys_orNothing,
      moduleKeys_orNothing, namespaces, modules]
    split <;> exact ⟨rfl, rfl⟩

/-- The same options, and the same of the given keys declared. -/
structure SameOn (spaces modules : List String) (first second : Converter) : Prop where
  options : first.options = second.options
  declared : first.declared.AgreeOn spaces modules second.declared

section Steps

variable {first second : Converter} {request : Request}

/-- An answer depends on the entries that the request shows. -/
theorem answer_of_shown (options : first.options = second.options)
    (same : shown first request = shown second request) :
    (answer first request).1 = (answer second request).1 := by
  obtain ⟨ours, declared⟩ := first
  obtain ⟨theirs, declared'⟩ := second
  dsimp only at options
  subst options
  have converted : ∀ dialect moduleName source,
      (settle declared (textEntries ours dialect moduleName source)).1 =
        (settle declared' (textEntries ours dialect moduleName source)).1 →
      (Converter.convert ⟨ours, declared⟩ dialect moduleName source).outcome =
        (Converter.convert ⟨ours, declared'⟩ dialect moduleName source).outcome := by
    intro dialect moduleName source same
    cases parsed : (parse dialect source).result with
    | error e => simp only [Converter.convert, parsed]
    | ok statements =>
      simp only [textEntries, parsed] at same
      simp only [Converter.convert, parsed, Converter.emit, same]
  cases request with
  | convert dialect moduleName source =>
    exact congrArg Answer.converted (converted dialect moduleName source same)
  | convertFile file =>
    exact congrArg (Answer.convertedFile file.text) (converted file.dialect _ file.text same)
  | emit moduleName statements =>
    exact congrArg (fun entries => Answer.converted (.ok (render entries))) same
  | reset => rfl
  | options => rfl

/-- The answer to a request depends on its own names only. -/
theorem answer_of_sameOn (same : SameOn request.spaces (request.modules first.options) first second) :
    (answer first request).1 = (answer second request).1 := by
  apply answer_of_shown same.options
  obtain ⟨namespaces, modules⟩ := keys_asked first.options request
  rw [shown, shown, ← same.options]
  apply settle_of_agreeOn
  rw [namespaces, modules]
  exact same.declared

theorem answer_options (c : Converter) (request : Request) :
    (answer c request).2.options = c.options := by
  by_cases isReset : request = .reset
  · rw [isReset]
    rfl
  · rw [answer_converter c isReset]

/-- What has been declared after a request, unless it is a reset. -/
theorem mem_answer_namespaces (c : Converter) (notReset : request ≠ .reset) {key : String} :
    key ∈ (answer c request).2.declared.namespaces ↔
      key ∈ c.declared.namespaces ∨ key ∈ request.spaces := by
  rw [answer_converter c notReset, mem_settle_namespaces, (keys_asked c.options request).1]

theorem mem_answer_modules (c : Converter) (notReset : request ≠ .reset) {key : String} :
    key ∈ (answer c request).2.declared.modules ↔
      key ∈ c.declared.modules ∨ key ∈ request.modules c.options := by
  rw [answer_converter c notReset, mem_settle_modules, (keys_asked c.options request).2]

/-- Converters that agree on some names still do after the same request. -/
theorem SameOn.answer {spaces modules : List String} (same : SameOn spaces modules first second)
    (request : Request) :
    SameOn spaces modules (Session.answer first request).2 (Session.answer second request).2 := by
  refine ⟨by rw [answer_options, answer_options, same.options], ?_⟩
  by_cases isReset : request = .reset
  · subst isReset
    exact ⟨fun _ _ => Iff.rfl, fun _ _ => Iff.rfl⟩
  · refine ⟨?_, ?_⟩
    · intro key member
      rw [mem_answer_namespaces first isReset, mem_answer_namespaces second isReset,
        same.declared.namespaces key member]
    · intro key member
      rw [mem_answer_modules first isReset, mem_answer_modules second isReset, same.options,
        same.declared.modules key member]

/-- Converters that agree on all names give the same answers from now on. -/
theorem run_of_sameOn (same : ∀ spaces modules, SameOn spaces modules first second)
    (requests : List Request) : run first requests = run second requests := by
  induction requests generalizing first second with
  | nil => rfl
  | cons request more ih =>
    have here : (answer first request).1 = (answer second request).1 := answer_of_sameOn (same _ _)
    have rest := ih fun spaces modules => (same spaces modules).answer request
    simp only [run, here, rest]

end Steps

/-- The requests of a session since its last reset. -/
def sinceReset (session : List Request) : List Request :=
  session.rtakeWhile fun request => match request with
    | .reset => false
    | _ => true

theorem sinceReset_append_reset (session : List Request) : sinceReset (session ++ [.reset]) = [] :=
  List.rtakeWhile_concat_neg _ _ _ (by decide)

theorem sinceReset_append {request : Request} (notReset : request ≠ .reset) (session : List Request) :
    sinceReset (session ++ [request]) = sinceReset session ++ [request] := by
  apply List.rtakeWhile_concat_pos
  cases request with
  | reset => exact absurd rfl notReset
  | _ => rfl

/-- What the requests of a session since its last reset declare. -/
def spacesSince (session : List Request) : List String :=
  (sinceReset session).flatMap Request.spaces

def modulesSince (options : Options) (session : List Request) : List String :=
  (sinceReset session).flatMap (Request.modules options)

theorem after_append (c : Converter) (session : List Request) (request : Request) :
    after c (session ++ [request]) = (answer (after c session) request).2 := by
  rw [after, List.foldl_append]
  rfl

theorem after_options (c : Converter) (session : List Request) :
    (after c session).options = c.options := by
  induction session generalizing c with
  | nil => rfl
  | cons request more ih => exact (ih _).trans (answer_options c request)

/-- What has been declared after a session is what its requests since the last reset declare. -/
theorem declared_after (options : Options) (session : List Request) :
    (∀ key, key ∈ (after { options } session).declared.namespaces ↔ key ∈ spacesSince session) ∧
      ∀ key, key ∈ (after { options } session).declared.modules ↔
        key ∈ modulesSince options session := by
  induction session using List.reverseRecOn with
  | nil => exact ⟨fun key => Iff.rfl, fun key => Iff.rfl⟩
  | append_singleton session request ih =>
    rw [after_append, spacesSince, modulesSince]
    by_cases isReset : request = .reset
    · subst isReset
      rw [sinceReset_append_reset]
      exact ⟨fun key => Iff.rfl, fun key => Iff.rfl⟩
    · rw [sinceReset_append isReset, List.flatMap_append, List.flatMap_append, List.flatMap_singleton,
        List.flatMap_singleton]
      refine ⟨?_, ?_⟩
      · intro key
        rw [mem_answer_namespaces _ isReset, ih.1, List.mem_append]
        rfl
      · intro key
        rw [mem_answer_modules _ isReset, ih.2, List.mem_append, after_options]
        rfl

/-- Whether the answer is that a text could not be read. -/
def Answer.failed : Answer → Bool
  | converted outcome | convertedFile _ outcome => outcome.result.toOption.isNone
  | done | options _ => false

/-- A request that fails leaves no trace. -/
theorem converter_of_failed {c : Converter} {request : Request}
    (failed : (answer c request).1.failed = true) : (answer c request).2 = c := by
  have converted : ∀ dialect moduleName source,
      (c.convert dialect moduleName source).outcome.result.toOption.isNone = true →
        (c.convert dialect moduleName source).converter = c := by
    intro dialect moduleName source failed
    cases parsed : (parse dialect source).result with
    | error e => simp only [Converter.convert, parsed]
    | ok statements =>
      simp only [Converter.convert, parsed] at failed
      cases failed
  cases request with
  | convert dialect moduleName source => exact converted dialect moduleName source failed
  | convertFile file => exact converted file.dialect _ file.text failed
  | emit moduleName statements => cases failed
  | reset => cases failed
  | options => cases failed

/-- The requests of a session with their answers. -/
def transcript (c : Converter) (session : List Request) : List (Request × Answer) :=
  session.zip (run c session)

/-- What is left of a session without some of the requests that failed is answered as before. -/
theorem transcript_of_kept {c : Converter} {session : List Request} {kept : List (Request × Answer)}
    (sublist : kept.Sublist (transcript c session))
    (onlyFailed : kept.filter (fun step => !step.2.failed) =
      (transcript c session).filter fun step => !step.2.failed) :
    transcript c (kept.map Prod.fst) = kept := by
  induction session generalizing c kept with
  | nil =>
    rw [List.sublist_nil.mp sublist]
    rfl
  | cons request more ih =>
    have split : transcript c (request :: more) =
        (request, (answer c request).1) :: transcript (answer c request).2 more := rfl
    rw [split] at sublist onlyFailed
    cases sublist with
    | cons _ sublist =>
      -- The request is left out, so it failed: one that did not would be missing in what is kept.
      have failed : (answer c request).1.failed = true := by
        by_contra succeeded
        rw [Bool.not_eq_true] at succeeded
        have fewer := (sublist.filter fun step => !step.2.failed).length_le
        rw [onlyFailed, List.filter_cons, if_pos (by simp [succeeded]), List.length_cons] at fewer
        omega
      rw [List.filter_cons, if_neg (by simp [failed])] at onlyFailed
      rw [converter_of_failed failed] at sublist onlyFailed
      exact ih sublist onlyFailed
    | cons_cons _ sublist =>
      refine congrArg ((request, (answer c request).1) :: ·) (ih sublist ?_)
      rw [List.filter_cons, List.filter_cons] at onlyFailed
      split at onlyFailed
      · exact (List.cons.inj onlyFailed).2
      · exact onlyFailed

section Swap

variable {c : Converter} {first second : Request}

/-- A request changes nothing for names that it does not declare. -/
theorem sameOn_of_disjoint (notReset : first ≠ .reset) {spaces modules : List String}
    (otherSpaces : spaces.Disjoint first.spaces)
    (otherModules : modules.Disjoint (first.modules c.options)) :
    SameOn spaces modules (answer c first).2 c := by
  refine ⟨answer_options c first, ?_, ?_⟩
  · intro key member
    rw [mem_answer_namespaces c notReset]
    exact or_iff_left (otherSpaces member)
  · intro key member
    rw [mem_answer_modules c notReset]
    exact or_iff_left (otherModules member)

/-- The order of two requests makes no difference to what has been declared after them. -/
theorem sameOn_swap (notReset : first ≠ .reset) (notReset' : second ≠ .reset)
    (spaces modules : List String) :
    SameOn spaces modules (answer (answer c first).2 second).2 (answer (answer c second).2 first).2 := by
  refine ⟨by simp only [answer_options], ?_, ?_⟩
  · intro key _
    rw [mem_answer_namespaces _ notReset', mem_answer_namespaces _ notReset,
      mem_answer_namespaces _ notReset, mem_answer_namespaces _ notReset', or_right_comm]
  · intro key _
    rw [mem_answer_modules _ notReset', mem_answer_modules _ notReset,
      mem_answer_modules _ notReset, mem_answer_modules _ notReset', answer_options, answer_options,
      or_right_comm]

/-- Two requests without common names may be made in either order. -/
theorem run_swap (notReset : first ≠ .reset) (notReset' : second ≠ .reset)
    (spaces : first.spaces.Disjoint second.spaces)
    (modules : (first.modules c.options).Disjoint (second.modules c.options)) (later : List Request) :
    ∃ one two rest, run c (first :: second :: later) = one :: two :: rest ∧
      run c (second :: first :: later) = two :: one :: rest := by
  have two : (answer (answer c first).2 second).1 = (answer c second).1 := by
    apply answer_of_sameOn
    rw [answer_options]
    exact sameOn_of_disjoint notReset (fun key inSecond inFirst => spaces inFirst inSecond)
      fun key inSecond inFirst => modules inFirst inSecond
  have one : (answer (answer c second).2 first).1 = (answer c first).1 := by
    apply answer_of_sameOn
    rw [answer_options]
    exact sameOn_of_disjoint notReset' spaces modules
  have rest := run_of_sameOn (sameOn_swap (c := c) notReset notReset') later
  refine ⟨(answer c first).1, (answer c second).1,
    run (answer (answer c first).2 second).2 later, ?_, ?_⟩
  · simp only [run, two]
  · simp only [run, one, rest]

end Swap

theorem run_append (c : Converter) (earlier later : List Request) :
    run c (earlier ++ later) = run c earlier ++ run (after c earlier) later := by
  induction earlier generalizing c with
  | nil => rfl
  | cons request more ih => exact congrArg ((answer c request).1 :: ·) (ih _)

/-- A request knows the past by its own names only: in two sessions with the same options it has the same
answer, if the requests before it since the last reset declared the same ones of its namespaces and
modules. So requests that failed may be left out, a reset makes the converter new, and two requests
without common names may change places. -/
theorem past_known_by_own_names (options : Options) :
    (∀ (first second : List Request) (request : Request),
      (∀ key ∈ request.spaces, (key ∈ spacesSince first ↔ key ∈ spacesSince second)) →
      (∀ key ∈ request.modules options,
        (key ∈ modulesSince options first ↔ key ∈ modulesSince options second)) →
      (answer (after { options } first) request).1 =
        (answer (after { options } second) request).1) ∧
    (∀ (session : List Request) (kept : List (Request × Answer)),
      kept.Sublist (transcript { options } session) →
      (kept.filter fun step => !step.2.failed) =
        ((transcript { options } session).filter fun step => !step.2.failed) →
      transcript { options } (kept.map Prod.fst) = kept) ∧
    (∀ session later : List Request,
      run (after { options } (session ++ [.reset])) later = run { options } later) ∧
    ∀ (earlier later : List Request) (first second : Request), first ≠ .reset → second ≠ .reset →
      first.spaces.Disjoint second.spaces →
      (first.modules options).Disjoint (second.modules options) →
      ∃ one two rest,
        run { options } (earlier ++ first :: second :: later) =
          run { options } earlier ++ one :: two :: rest ∧
        run { options } (earlier ++ second :: first :: later) =
          run { options } earlier ++ two :: one :: rest := by
  refine ⟨?_, fun session kept => transcript_of_kept, ?_, ?_⟩
  · intro first second request spaces modules
    obtain ⟨firstSpaces, firstModules⟩ := declared_after options first
    obtain ⟨secondSpaces, secondModules⟩ := declared_after options second
    apply answer_of_sameOn
    refine ⟨by rw [after_options, after_options], ?_, ?_⟩
    · intro key member
      rw [firstSpaces, secondSpaces]
      exact spaces key member
    · intro key member
      rw [after_options] at member
      rw [firstModules, secondModules]
      exact modules key member
  · intro session later
    have new : after { options } (session ++ [.reset]) = { options } := by
      rw [after_append]
      exact congrArg (fun options => ({ options } : Converter)) (after_options _ session)
    rw [new]
  · intro earlier later first second notReset notReset' spaces modules
    have kept : (after { options } earlier).options = options := after_options { options } earlier
    obtain ⟨one, two, rest, inOrder, swapped⟩ :=
      run_swap notReset notReset' spaces (kept.symm ▸ modules) later
    exact ⟨one, two, rest, by rw [run_append, inOrder], by rw [run_append, swapped]⟩

/-- Requests with one namespace each, and one with an `end` too many: the second one of a namespace is
answered in the same way after either history, the failed one may be left out, and the others may change
places. -/
theorem other_namespace_changes_places :
    let upper := .convert .brighterScript "a.b" "namespace Up\nend namespace"
    let again := .convert .brightScript "a/b" "namespace up\nend namespace"
    let other := .convert .brighterScript "c" "namespace Other\nend namespace"
    let broken := .convert .brighterScript "d" "namespace up\nend sub"
    (answer (after {} [upper, broken]) again).1 =
        (answer (after {} [again, .reset, other, upper]) again).1 ∧
      transcript {} [upper, again] = (transcript {} [upper, broken, again]).eraseIdx 1 ∧
      run (after {} [upper, .reset]) [again] = run {} [again] ∧
      ∃ one two rest, run {} [upper, other, again] = one :: two :: rest ∧
        run {} [other, upper, again] = two :: one :: rest := by
  intro upper again other broken
  obtain ⟨same, failed, new, swapped⟩ := past_known_by_own_names {}
  refine ⟨?_, ?_, new [upper] [again], ?_⟩
  · exact same [upper, broken] [again, .reset, other, upper] again (by decide +kernel)
      (by decide +kernel)
  · have fails : (answer (answer {} upper).2 broken).1.failed = true := by decide +kernel
    refine failed [upper, broken, again] _ (List.eraseIdx_sublist _ 1) ?_
    simp [transcript, run, List.filter_cons, fails]
  · have spaces : ∀ key ∈ upper.spaces, key ∉ other.spaces := by decide +kernel
    have modules : ∀ key ∈ upper.modules {}, key ∉ other.modules {} := by decide +kernel
    exact swapped [] [again] upper other nofun nofun spaces modules

end BrightDoc.Session
