/-!
JSON values and their texts. Numbers are kept as they are written, since nothing here computes with
them.
-/

namespace BrightDoc

/-- A JSON value. -/
inductive Json where
  | null
  | bool (value : Bool)
  | number (text : String)
  | string (text : String)
  | array (elements : List Json)
  | object (members : List (String × Json))
deriving Inhabited

namespace Json

/-- The member of an object with the given name. Of several with one name the last counts. -/
def member? (name : String) : Json → Option Json
  | object members => members.reverse.lookup name
  | _ => none

/-- The truth value, if the value is one. -/
def bool? : Json → Option Bool
  | bool value => some value
  | _ => none

/-- The text after the blanks of the format. -/
def skipBlank (cs : List Char) : List Char :=
  cs.dropWhile fun c => c == ' ' || c == '\t' || c == '\n' || c == '\r'

/-- The value of a hexadecimal digit. -/
def hexDigit? (c : Char) : Option Nat :=
  if c.isDigit then some (c.toNat - '0'.toNat)
  else if 'a' ≤ c && c ≤ 'f' then some (c.toNat - 'a'.toNat + 10)
  else if 'A' ≤ c && c ≤ 'F' then some (c.toNat - 'A'.toNat + 10)
  else none

/-- The code unit of four hexadecimal digits, and the rest. -/
def unit? : List Char → Option (Nat × List Char)
  | a :: b :: c :: d :: rest => do
    return (((← hexDigit? a) * 16 + (← hexDigit? b)) * 256 +
      ((← hexDigit? c) * 16 + (← hexDigit? d)), rest)
  | _ => none

/-- The character of a `\u` escape, whose digits start the text, and the rest. A leading surrogate
needs a trailing one in an escape of its own. -/
def escapedUnit? (cs : List Char) : Option (Char × List Char) := do
  let (unit, rest) ← unit? cs
  if 0xDC00 ≤ unit && unit ≤ 0xDFFF then none
  else if 0xD800 ≤ unit && unit ≤ 0xDBFF then
    match rest with
    | '\\' :: 'u' :: more =>
      let (low, rest) ← unit? more
      if 0xDC00 ≤ low && low ≤ 0xDFFF then
        some (Char.ofNat (0x10000 + (unit - 0xD800) * 0x400 + (low - 0xDC00)), rest)
      else none
    | _ => none
  else some (Char.ofNat unit, rest)

/-- The character of an escape, whose text starts after its backslash, and the rest. -/
def escaped? : List Char → Option (Char × List Char)
  | '"' :: rest => some ('"', rest)
  | '\\' :: rest => some ('\\', rest)
  | '/' :: rest => some ('/', rest)
  | 'b' :: rest => some ('\x08', rest)
  | 'f' :: rest => some ('\x0c', rest)
  | 'n' :: rest => some ('\n', rest)
  | 'r' :: rest => some ('\r', rest)
  | 't' :: rest => some ('\t', rest)
  | 'u' :: rest => escapedUnit? rest
  | _ => none

/-- The rest of a string after its opening quote, and the text after it. `held` holds the characters
so far, newest first; `fuel` bounds their number. -/
def stringFrom? (fuel : Nat) (held : List Char) (cs : List Char) : Option (String × List Char) :=
  match fuel, cs with
  | 0, _ => none
  | _, [] => none
  | _, '"' :: rest => some (String.ofList held.reverse, rest)
  | fuel + 1, '\\' :: rest =>
    match escaped? rest with
    | some (c, rest) => stringFrom? fuel (c :: held) rest
    | none => none
  | fuel + 1, c :: rest => if c.toNat < 32 then none else stringFrom? fuel (c :: held) rest

/-- A string after its opening quote, and the text after it. -/
def string? (cs : List Char) : Option (String × List Char) :=
  stringFrom? (cs.length + 1) [] cs

/-- One or more digits, and the rest. -/
def digits? (cs : List Char) : Option (List Char × List Char) :=
  match cs.takeWhile Char.isDigit with
  | [] => none
  | digits => some (digits, cs.dropWhile Char.isDigit)

/-- The value of a text of digits. -/
def digitsValue (digits : List Char) : Nat :=
  digits.foldl (fun value c => value * 10 + (c.toNat - '0'.toNat)) 0

/-- Whether `digits · 10 ^ exponent` is in the range of double precision numbers. The bound is the
midpoint between the largest of them and the next power of two. -/
def isFinite (digits : List Char) (exponent : Int) : Bool :=
  let significant := digits.dropWhile (· == '0')
  let magnitude := (significant.length : Int) + exponent
  if significant.isEmpty || magnitude < 300 then true
  else if 310 < magnitude then false
  else
    let bound := Nat.pow 2 1024 - Nat.pow 2 970
    if 0 ≤ exponent then digitsValue significant * Nat.pow 10 exponent.toNat < bound
    else digitsValue significant < bound * Nat.pow 10 (-exponent).toNat

/-- The digits after a decimal point, and the rest. -/
def fraction? : List Char → Option (List Char × List Char)
  | '.' :: cs => digits? cs
  | cs => some ([], cs)

/-- The value of an exponent, zero where there is none, and the rest. -/
def exponent? : List Char → Option (Int × List Char)
  | e :: cs =>
    if e == 'e' || e == 'E' then
      match cs with
      | '-' :: cs => (digits? cs).map fun (digits, rest) => (-(digitsValue digits : Int), rest)
      | '+' :: cs => (digits? cs).map fun (digits, rest) => ((digitsValue digits : Int), rest)
      | cs => (digits? cs).map fun (digits, rest) => ((digitsValue digits : Int), rest)
    else some (0, e :: cs)
  | [] => some (0, [])

/-- A number, and the rest. Its whole part has no needless zero, and it lies in the range of double
precision numbers. -/
def number? (cs : List Char) : Option (Json × List Char) := do
  let unsigned :=
    match cs with
    | '-' :: rest => rest
    | _ => cs
  let (whole, rest) ← digits? unsigned
  if whole.head? = some '0' && 1 < whole.length then none
  let (fraction, rest) ← fraction? rest
  let (exponent, rest) ← exponent? rest
  if isFinite (whole ++ fraction) (exponent - fraction.length) then
    some (number (String.ofList (cs.take (cs.length - rest.length))), rest)
  else none

/-- The text after `word`, with the value that the word stands for. -/
def word? (word : String) (value : Json) (cs : List Char) : Option (Json × List Char) :=
  (word.toList.isPrefixOf? cs).map fun rest => (value, rest)

mutual

/-- A value, and the rest. Arrays and objects are nested in each other less than `depth` deep;
`fuel` bounds the work. -/
def value? (fuel depth : Nat) (cs : List Char) : Option (Json × List Char) :=
  match fuel with
  | 0 => none
  | fuel + 1 =>
    match skipBlank cs with
    | '"' :: rest => (string? rest).map fun (text, rest) => (string text, rest)
    | '[' :: rest =>
      if depth ≤ 1 then none
      else
        match skipBlank rest with
        | ']' :: rest => some (array [], rest)
        | _ => (elements? fuel (depth - 1) rest).map fun (values, rest) => (array values, rest)
    | '{' :: rest =>
      if depth ≤ 1 then none
      else
        match skipBlank rest with
        | '}' :: rest => some (object [], rest)
        | _ => (members? fuel (depth - 1) rest).map fun (members, rest) => (object members, rest)
    | 'n' :: rest => word? "null" null ('n' :: rest)
    | 't' :: rest => word? "true" (bool true) ('t' :: rest)
    | 'f' :: rest => word? "false" (bool false) ('f' :: rest)
    | cs => number? cs

/-- The values of an array up to its closing bracket, of which there is at least one, and the
rest. -/
def elements? (fuel depth : Nat) (cs : List Char) : Option (List Json × List Char) :=
  match fuel with
  | 0 => none
  | fuel + 1 =>
    match value? fuel depth cs with
    | some (value, rest) =>
      match skipBlank rest with
      | ',' :: rest => (elements? fuel depth rest).map fun (values, rest) => (value :: values, rest)
      | ']' :: rest => some ([value], rest)
      | _ => none
    | none => none

/-- The members of an object up to its closing brace, of which there is at least one, and the
rest. -/
def members? (fuel depth : Nat) (cs : List Char) : Option (List (String × Json) × List Char) :=
  match fuel with
  | 0 => none
  | fuel + 1 =>
    match skipBlank cs with
    | '"' :: rest =>
      match string? rest with
      | some (name, rest) =>
        match skipBlank rest with
        | ':' :: rest =>
          match value? fuel depth rest with
          | some (value, rest) =>
            match skipBlank rest with
            | ',' :: rest =>
              (members? fuel depth rest).map fun (members, rest) => ((name, value) :: members, rest)
            | '}' :: rest => some ([(name, value)], rest)
            | _ => none
          | none => none
        | _ => none
      | none => none
    | _ => none

end

/-- How deep arrays and objects may be nested. -/
def maxDepth : Nat := 128

/-- The value that a whole text stands for. -/
def parse? (text : String) : Option Json :=
  let cs := text.toList
  match value? (2 * cs.length + 2) maxDepth cs with
  | some (value, rest) => if (skipBlank rest).isEmpty then some value else none
  | none => none

end Json

end BrightDoc
