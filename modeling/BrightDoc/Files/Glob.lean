import BrightDoc.Files.Tree

/-!
Patterns for files. Between slashes, `*` stands for any characters, `?` for any one, and brackets
for one of a set; `**` stands for any number of directories.
-/

namespace BrightDoc.Glob

/-- A member of a set of characters. -/
inductive Member where
  | single (c : Char)
  | between (first last : Char)
deriving DecidableEq

/-- Whether a member covers a character. -/
def Member.covers : Member → Char → Bool
  | single c, d => c == d
  | between first last, d => first ≤ d && d ≤ last

/-- A part of the pattern of a name. -/
inductive Token where
  | char (c : Char)
  | anyChar
  | anySequence
  | oneOf (members : List Member)
  | noneOf (members : List Member)
deriving DecidableEq

/-- Whether a token matches a single character. -/
def Token.matchesChar : Token → Char → Bool
  | char c, d => c == d
  | anyChar, _ => true
  | anySequence, _ => true
  | oneOf members, d => members.any (·.covers d)
  | noneOf members, d => !members.any (·.covers d)

/-- The pattern of one step on the way to a file. -/
inductive Step where
  /-- A name without wildcards. -/
  | literal (name : String)
  /-- A name with wildcards. -/
  | wild (tokens : List Token)
  /-- Any number of directories. -/
  | anyDirectories
deriving DecidableEq

/-- The members of a set, from the text between its brackets. -/
def members : List Char → List Member
  | first :: '-' :: last :: more => .between first last :: members more
  | c :: more => .single c :: members more
  | [] => []

/-- An open set: whether it is negated, and its text so far, newest character first. -/
structure OpenSet where
  negated : Bool := false
  held : List Char := []

/-- The token of a set. -/
def OpenSet.token (s : OpenSet) : Token :=
  if s.negated then .noneOf (members s.held.reverse) else .oneOf (members s.held.reverse)

/-- The tokens of the pattern of a name, where `open_` is the set that is open before it. A set has at
least one member, which may be a closing bracket, and is closed. Two asterisks do not stand
together. -/
def tokensFrom? (open_ : Option OpenSet) : List Char → Option (List Token)
  | [] => if open_.isSome then none else some []
  | c :: cs =>
    match open_ with
    | some set =>
      if set.held.isEmpty then
        if c = '!' && !set.negated then tokensFrom? (some { negated := true }) cs
        else tokensFrom? (some { set with held := [c] }) cs
      else if c = ']' then (tokensFrom? none cs).map (set.token :: ·)
      else tokensFrom? (some { set with held := c :: set.held }) cs
    | none =>
      if c = '[' then tokensFrom? (some {}) cs
      else if c = '?' then (tokensFrom? none cs).map (.anyChar :: ·)
      else if c = '*' then
        if cs.head? = some '*' then none else (tokensFrom? none cs).map (.anySequence :: ·)
      else (tokensFrom? none cs).map (.char c :: ·)

/-- The character of a token that stands for one. -/
def Token.char? : Token → Option Char
  | char c => some c
  | _ => none

/-- The pattern of one step. -/
def step? (text : List Char) : Option Step :=
  if text = ['*', '*'] then some .anyDirectories
  else
    (tokensFrom? none text).map fun tokens =>
      match tokens.mapM Token.char? with
      | some name => .literal (String.ofList name)
      | none => .wild tokens

/-- A pattern of files: where it starts, the patterns of its steps, and whether only directories
match it. -/
structure Pattern where
  start : String
  steps : List Step
  onlyDirectories : Bool

/-- The pattern with the given text. -/
def Pattern.of? (text : String) : Option Pattern := do
  let (start, rest) :=
    match text.toList with
    | '/' :: rest => ("/", rest)
    | rest => (".", rest)
  let segments := Text.pieces '/' rest
  let onlyDirectories := 1 < segments.length && segments.getLast? == some []
  let steps ← (if onlyDirectories then segments.dropLast else segments).mapM step?
  return { start, steps, onlyDirectories }

/-- Whether some rest of the text satisfies `p`. -/
def anyRest (p : List Char → Bool) : List Char → Bool
  | [] => p []
  | c :: cs => p (c :: cs) || anyRest p cs

/-- Whether the tokens match the whole text. -/
def matchesText : List Token → List Char → Bool
  | [], cs => cs.isEmpty
  | .anySequence :: more, cs => anyRest (matchesText more) cs
  | token :: more, cs =>
    match cs with
    | c :: cs => token.matchesChar c && matchesText more cs
    | [] => false

/-- Whether the pattern of a step matches a name. -/
def Step.matchesName : Step → String → Bool
  | literal name, found => name == found
  | wild tokens, found => matchesText tokens found.toList
  | anyDirectories, _ => true

/-- The path of what a name leads to from the end of a path. From the current directory it is the
name alone. -/
def child (path name : String) : String :=
  if Path.components path = [.here] then name else Path.join path name

/-- The names of the directory itself and the one above it that a pattern matches. Only a pattern
that starts with a dot does. -/
def dotNames (tokens : List Token) : List String :=
  if tokens.head? = some (.char '.') then
    [".", ".."].filter fun name => matchesText tokens name.toList
  else []

/-- The paths that the patterns of some steps match from the end of a path. After any number of
directories a step matches by name only. -/
def expandFrom (t : FileTree) : List Step → String → List String
  | [], path => [path]
  | .literal name :: more, path =>
    let next := child path name
    let found := if name = "." || name = ".." then t.isDirectory path else t.hasPath next
    if found then expandFrom t more next else []
  | .wild tokens :: more, path =>
    match t.locate path with
    | .ok place =>
      if t.node? place = some .directory then
        ((t.names place).filter fun name => matchesText tokens name.toList).flatMap
            (fun name => expandFrom t more (child path name)) ++
          (dotNames tokens).flatMap fun name => expandFrom t more (Path.join path name)
      else []
    | .error _ => []
  | [.anyDirectories], _ => []
  | .anyDirectories :: .anyDirectories :: more, path => expandFrom t (.anyDirectories :: more) path
  | .anyDirectories :: step :: more, path =>
    match t.locate path with
    | .ok place =>
      if t.node? place = some .directory then
        ((t.below place).filter fun way => way.getLast?.any step.matchesName).flatMap
          fun way => expandFrom t more (child path ("/".intercalate way))
      else []
    | .error _ => []

/-- The paths that a pattern matches. Those that only directories can have are left out. -/
def Pattern.paths (p : Pattern) (t : FileTree) : List String :=
  if p.onlyDirectories then [] else expandFrom t p.steps p.start

/-- The paths that the pattern with the given text matches, if there is such a pattern. -/
def paths? (t : FileTree) (text : String) : Option (List String) :=
  (Pattern.of? text).map fun p => p.paths t

end BrightDoc.Glob
