import BrightDoc.Proofs.Carrier.Introduced
import BrightDoc.Session
import Mathlib.Data.List.Nodup

/-! # Namespaces and modules in a session

Between two resets all requests to a converter are settled one after the other, as the entries of one
long tree would be. So each namespace and each module is declared once, and each namespace after those
around it and before what stands in it. -/

namespace BrightDoc.Session

open BrightDoc.Carrier BrightDoc.Text

/-- Whether the request gives no tree of its own, only texts. -/
def Request.isOfText : Request → Bool
  | emit _ _ => false
  | _ => true

/-- The entries of a source text, before it is settled which of them stay; none where it cannot be
read. -/
def textEntries (options : Options) (dialect : Dialect) (moduleName source : String) : List Entry :=
  match (parse dialect source).result with
  | .ok statements => Converter.entries options moduleName statements
  | .error _ => []

/-- The entries that a request asks for. -/
def asked (options : Options) : Request → List Entry
  | .convert dialect moduleName source => textEntries options dialect moduleName source
  | .convertFile file => textEntries options file.dialect (file.ownModule options) file.text
  | .emit moduleName statements => Converter.entries options moduleName statements
  | .reset | .options => []

/-- The entries that a request shows. -/
def shown (c : Converter) (request : Request) : List Entry :=
  (settle c.declared (asked c.options request)).1

/-- The text of an answer, if it has one. -/
def Answer.text? : Answer → Option String
  | converted outcome => outcome.result.toOption
  | convertedFile _ outcome => outcome.result.toOption
  | done | options _ => none

/-- A conversion shows the entries of its text that stay, and leaves declared what they declare. -/
theorem convert_settled (c : Converter) (dialect : Dialect) (moduleName source : String) :
    let settled := settle c.declared (textEntries c.options dialect moduleName source)
    (∀ text, (c.convert dialect moduleName source).outcome.result.toOption = some text →
      text = render settled.1) ∧
    (c.convert dialect moduleName source).converter = { c with declared := settled.2 } := by
  cases parsed : (parse dialect source).result with
  | error e =>
    simp only [Converter.convert, textEntries, parsed, settle]
    exact ⟨fun text found => (by cases found), trivial⟩
  | ok statements =>
    simp only [Converter.convert, textEntries, parsed, Converter.emit]
    exact ⟨fun text found => (Option.some.inj found).symm, trivial⟩

/-- The text of an answer is that of the entries that the request shows. -/
theorem text_of_answer {c : Converter} {request : Request} {text : String}
    (answered : (answer c request).1.text? = some text) : text = render (shown c request) := by
  cases request with
  | convert dialect moduleName source =>
    exact (convert_settled c dialect moduleName source).1 text answered
  | convertFile file =>
    exact (convert_settled c file.dialect (file.ownModule c.options) file.text).1 text answered
  | emit moduleName statements => exact (Option.some.inj answered).symm
  | reset => cases answered
  | options => cases answered

/-- What a request leaves declared, unless it is a reset: what had been, and what it shows. -/
theorem answer_converter (c : Converter) {request : Request} (notReset : request ≠ .reset) :
    (answer c request).2 =
      { c with declared := (settle c.declared (asked c.options request)).2 } := by
  cases request with
  | convert dialect moduleName source => exact (convert_settled c dialect moduleName source).2
  | convertFile file =>
    exact (convert_settled c file.dialect (file.ownModule c.options) file.text).2
  | emit moduleName statements => rfl
  | reset => exact absurd rfl notReset
  | options => rfl

/-- The converter after some requests. -/
def after (c : Converter) (requests : List Request) : Converter :=
  requests.foldl (fun c request => (answer c request).2) c

/-- The entries that some requests show, one after the other. -/
def shownThroughout (c : Converter) : List Request → List Entry
  | [] => []
  | request :: more => shown c request ++ shownThroughout (answer c request).2 more

/-- Requests without a reset are settled at once. -/
theorem settle_stretch {stretch : List Request} (noReset : .reset ∉ stretch) (c : Converter) :
    settle c.declared (stretch.flatMap (asked c.options)) =
      (shownThroughout c stretch, (after c stretch).declared) := by
  induction stretch generalizing c with
  | nil => rfl
  | cons request more ih =>
    rw [List.mem_cons, not_or] at noReset
    have step := answer_converter c (Ne.symm noReset.1)
    have rest := ih noReset.2 (answer c request).2
    simp only [step] at rest
    rw [List.flatMap_cons, settle_append, rest]
    simp only [shownThroughout, shown, after, List.foldl_cons, step]

/-- The entries of a text are introduced, whatever has been declared. -/
theorem introduced_textEntries (options : Options) (dialect : Dialect) (moduleName source : String)
    (declared : Declared) :
    Introduced declared (textEntries options dialect moduleName source) := by
  have outside : ∀ declared : Declared, Scope.IsKnown declared { inModule := moduleName } := by
    intro declared
    exact ⟨by simp [TokenText], fun named => absurd rfl named⟩
  rw [textEntries]
  split
  · rename_i statements parsed
    have dotted := forall_declarationsOf.mp (isDotted_of_parse parsed)
    rw [Converter.entries, introduced_append]
    refine ⟨?_, introduced_orNothing (introduced_planEach _ (outside _) _ statements dotted)⟩
    split
    · exact ⟨trivial, trivial⟩
    · trivial
  · trivial

theorem introduced_asked {request : Request} (ofText : request.isOfText = true) (options : Options)
    (declared : Declared) : Introduced declared (asked options request) := by
  cases request with
  | convert dialect moduleName source => exact introduced_textEntries options dialect _ source declared
  | convertFile file => exact introduced_textEntries options file.dialect _ file.text declared
  | emit moduleName statements => cases ofText
  | reset => trivial
  | options => trivial

theorem introduced_stretch {stretch : List Request}
    (ofText : ∀ request ∈ stretch, request.isOfText = true) (options : Options)
    (declared : Declared) : Introduced declared (stretch.flatMap (asked options)) := by
  induction stretch generalizing declared with
  | nil => trivial
  | cons request more ih =>
    rw [List.forall_mem_cons] at ofText
    rw [List.flatMap_cons, introduced_append]
    exact ⟨introduced_asked ofText.1 options declared, ih ofText.2 _⟩

/-- A request keeps what has been declared orderly. -/
theorem orderly_answer {c : Converter} (orderly : c.declared.Orderly) {request : Request}
    (ofText : request.isOfText = true) : (answer c request).2.declared.Orderly := by
  by_cases reset : request = .reset
  · subst reset
    exact Declared.orderly_empty
  · rw [answer_converter c reset]
    exact orderly_settle orderly (introduced_asked ofText c.options c.declared)

theorem orderly_after {c : Converter} (orderly : c.declared.Orderly) {requests : List Request}
    (ofText : ∀ request ∈ requests, request.isOfText = true) :
    (after c requests).declared.Orderly := by
  induction requests generalizing c with
  | nil => exact orderly
  | cons request more ih =>
    rw [List.forall_mem_cons] at ofText
    exact ih (orderly_answer orderly ofText.1) ofText.2

/-- A stretch of a session starts with it or after a reset. -/
def StartsStretch (earlier : List Request) : Prop :=
  earlier = [] ∨ earlier.getLast? = some .reset

theorem declared_of_startsStretch {earlier : List Request} (starts : StartsStretch earlier)
    (options : Options) : (after { options } earlier).declared = {} := by
  rcases starts with rfl | last
  · rfl
  · obtain ⟨first, rfl⟩ := List.getLast?_eq_some_iff.mp last
    rw [after, List.foldl_append]
    rfl

/-- In a session of one converter, as long as it is not reset, no namespace and no module is declared
twice, and before a declaration in a namespace all dotted beginnings of its path are declared, the
shorter ones first. At any time, what has been declared is closed under dropping the last segment of a
path. The texts that the session gives are those of the entries that its requests show. -/
theorem containers_declared_once (options : Options) (session : List Request)
    (ofText : ∀ request ∈ session, request.isOfText = true) :
    (∀ earlier stretch later, session = earlier ++ stretch ++ later → StartsStretch earlier →
      .reset ∉ stretch →
        let entries := shownThroughout (after { options } earlier) stretch
        (namespaceKeys entries).Nodup ∧ (moduleKeys entries).Nodup ∧
          ∀ before space pieces rest, entries = before ++ .declaration space pieces :: rest →
            space ≠ "" →
              (dottedPrefixes (Declared.namespaceKey space)).Sublist (namespaceKeys before)) ∧
    (∀ earlier later, session = earlier ++ later → ∀ outer segment : String, '.' ∉ segment.toList →
      outer ++ "." ++ segment ∈ (after { options } earlier).declared.namespaces →
        outer ∈ (after { options } earlier).declared.namespaces) ∧
    ∀ earlier request later, session = earlier ++ request :: later →
      ∀ text ∈ (answer (after { options } earlier) request).1.text?,
        text = render (shown (after { options } earlier) request) := by
  refine ⟨?_, ?_, fun earlier request later _ text answered => text_of_answer answered⟩
  · intro earlier stretch later split starts noReset entries
    have ofStretch : ∀ request ∈ stretch, request.isOfText = true := by
      intro request member
      exact ofText request (by simp [split, member])
    have introduced := introduced_stretch ofStretch (after { options } earlier).options {}
    have orderly := orderly_settle Declared.orderly_empty introduced
    obtain ⟨namespaces, modules⟩ :=
      settle_declared {} (stretch.flatMap (asked (after { options } earlier).options))
    have settled := settle_stretch noReset (after { options } earlier)
    rw [declared_of_startsStretch starts] at settled
    rw [settled] at orderly namespaces modules
    refine ⟨?_, ?_, ?_⟩
    · have once := orderly.namespaces
      rw [namespaces, List.append_nil] at once
      exact List.nodup_reverse.mp once
    · have once := orderly.modules
      rw [modules, List.append_nil] at once
      exact List.nodup_reverse.mp once
    · intro before space pieces rest here named
      have shown := (congrArg Prod.fst settled).trans here
      exact dottedPrefixes_sublist Declared.orderly_empty introduced shown named
  · intro earlier later split outer segment dotless member
    have ofEarlier : ∀ request ∈ earlier, request.isOfText = true := by
      intro request inside
      exact ofText request (by simp [split, inside])
    have orderly := orderly_after (c := { options }) Declared.orderly_empty ofEarlier
    exact orderly.outer_mem dotless member

/-- Two files of one module before a reset: they share the beginning of a path in other letters, and one
path has an empty segment. -/
theorem shared_beginning_declared_once :
    let low := "namespace Up.Low\nend namespace"
    let odd := "namespace up\nnamespace x..y\nconst C = 1\nend namespace\nend namespace"
    let stretch := [.convert .brighterScript "a.b" low, .convert .brighterScript "a/b" odd]
    let entries := shownThroughout {} stretch
    namespaceKeys entries = ["up", "up.low", "up.x", "up.x.", "up.x..y"] ∧
      moduleKeys entries = ["a/b"] ∧ (namespaceKeys entries).Nodup ∧
      entries.getLast? = some (.declaration "up.x..y"
        [.block [" * @memberof! up/x//y", " * @readonly", " * @constant", " * @default"],
          .code "var C = 1;", .code "up.x..y.C = C;"]) ∧
      (dottedPrefixes "up.x..y").Sublist (namespaceKeys entries.dropLast) := by
  intro low odd stretch entries
  let later : List Request := [.reset, .convertFile { name := "a.bs", text := odd }]
  obtain ⟨stretches, -, -⟩ := containers_declared_once {} (stretch ++ later) (by decide)
  obtain ⟨once, -, before⟩ := stretches [] stretch later rfl (Or.inl rfl) (by simp [stretch])
  have run : namespaceKeys entries = ["up", "up.low", "up.x", "up.x.", "up.x..y"] ∧
      moduleKeys entries = ["a/b"] ∧ entries.getLast? = some (.declaration "up.x..y"
        [.block [" * @memberof! up/x//y", " * @readonly", " * @constant", " * @default"],
          .code "var C = 1;", .code "up.x..y.C = C;"]) := by decide +kernel
  obtain ⟨namespaces, modules, last⟩ := run
  have key : Declared.namespaceKey "up.x..y" = "up.x..y" := by decide +kernel
  have beginnings := before _ _ _ [] (List.dropLast_append_getLast? _ last).symm (by decide)
  rw [key] at beginnings
  exact ⟨namespaces, modules, once, last, beginnings⟩

end BrightDoc.Session
