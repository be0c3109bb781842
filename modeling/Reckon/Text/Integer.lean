import Reckon.Text.Blank
import Reckon.Text.DecimalDigit

/-!
# Integers in settings

An integer is written with decimal digits of any script, single underscores between digits, an
optional sign in front and blanks around it.
-/

namespace Reckon

namespace Text

/-- A blank that may stand around an integer. -/
def isIntegerBlank (c : Char) : Bool := isAsciiBlank c || (0x7f ≤ c.val && isBlank c)

/-- The greatest number of digits an integer may be written with. -/
def integerDigitLimit : Nat := 4300

/-- The values of the digits, given that a digit has to come next if `expected`. -/
def integerDigits? (expected : Bool) : List Char → Option (List Nat)
  | [] => if expected then none else some []
  | c :: rest =>
    if c = '_' then
      if expected then none else integerDigits? true rest
    else
      match decimalDigit? c with
      | some d => (integerDigits? false rest).map (d :: ·)
      | none => none

/-- The natural number that digits and underscores spell. -/
def natural? (cs : List Char) : Option Nat :=
  match integerDigits? true cs with
  | some ds =>
    if integerDigitLimit < ds.length then none else some (ds.foldl (fun n d => n * 10 + d) 0)
  | none => none

/-- The integer that a text spells. -/
def integer? (s : String) : Option Int :=
  match trim isIntegerBlank s.toList with
  | '-' :: rest => (natural? rest).map fun n => -(n : Int)
  | '+' :: rest => (natural? rest).map Int.ofNat
  | cs => (natural? cs).map Int.ofNat

end Text

end Reckon
