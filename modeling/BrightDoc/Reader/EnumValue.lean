import BrightDoc.Tree.Statement

/-!
Values of enum members. Members without a written value are counted on from the value before them,
as long as that is a whole number. A build that checks arithmetic ends with a panic where counting
leaves the range of 64-bit words; this is the release build, which goes on.
-/

namespace BrightDoc.EnumValue

/-- The number that a text of decimal digits denotes, after the digits read so far. -/
def digitsFrom (number : Nat) : List Char → Nat
  | [] => number
  | c :: cs => digitsFrom (number * 10 + (c.toNat - '0'.toNat)) cs

/-- The number that a text of one or more decimal digits denotes. -/
def natural? (cs : List Char) : Option Nat :=
  if LiteralKind.isDigits cs then some (digitsFrom 0 cs) else none

/-- The whole number that a text denotes: decimal digits after an optional sign, within the range
of 64-bit words. -/
def whole? (cs : List Char) : Option Int :=
  let number : Option Int :=
    match cs with
    | '+' :: ds => (natural? ds).map fun n => (n : Int)
    | '-' :: ds => (natural? ds).map fun n => -(n : Int)
    | ds => (natural? ds).map fun n => (n : Int)
  number.filter fun n => -9223372036854775808 ≤ n && n ≤ 9223372036854775807

/-- The value shown for a member that has none. -/
def placeholder : String := "\x7b\x7d"

/-- What an enum member gets: its value, the number for the next member, and whether its value had
to be left open. -/
structure Assigned where
  value : String
  next : Option Int
  isOpen : Bool := false

/-- The number that a 64-bit word holds in place of a number that may be out of its range. -/
def word (number : Int) : Int :=
  number.bmod 18446744073709551616

/-- The value of a member by its written value, if it has one, and the number that is next. Numbers
are counted in 64-bit words without a check, so the least one comes after the greatest. -/
def assign (written : Option (List Char)) (next : Option Int) : Assigned :=
  match written, next with
  | some text, _ => { value := String.ofList text, next := (whole? text).map fun n => word (n + 1) }
  | none, some n => { value := toString n, next := some (word (n + 1)) }
  | none, none => { value := placeholder, next := none, isOpen := true }

end BrightDoc.EnumValue
