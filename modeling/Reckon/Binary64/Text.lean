import Reckon.Binary64.Arith
import Reckon.Decimal.Shortest
import Reckon.Text.Blank

/-!
# Doubles as text

Two ways to write a double and one to read it.

* `display` is what a user sees and can type again: never an exponent, whole numbers with all
  their digits and no point, all others with the fewest digits that read back.
* `debug` is used in diagnostics: the fewest digits always, a point always, and an exponent
  outside the decades `10⁻⁴` to `10¹⁵`.
* `ofText` reads the number that a text holds, blanks around it allowed, and answers NaN for a
  text that holds none.
-/

namespace Reckon

namespace Binary64

/-! ### Writing -/

/-- A minus for a negative number. -/
def signText (negative : Bool) : List Char := if negative then ['-'] else []

/-- The display form as characters. -/
def displayChars : Binary64 → List Char
  | nan => "NaN".toList
  | inf s => signText s ++ "inf".toList
  | finite s n h =>
    if n % quantaPerOne = 0 then
      signText s ++ Nat.toDigits 10 (n / quantaPerOne)
    else
      signText s ++ (Decimal.shortest n h).positional

/-- The display form. -/
def display (x : Binary64) : String := String.ofList x.displayChars

/-- The digits of the diagnostic form of a positive finite double. -/
def debugDecimal (d : Decimal) : List Char :=
  if -4 ≤ d.leadingExponent ∧ d.leadingExponent ≤ 15 then
    d.positional ++ (if 0 ≤ d.exponent then ".0".toList else [])
  else
    d.scientific

/-- The diagnostic form as characters. -/
def debugChars : Binary64 → List Char
  | nan => "nan".toList
  | inf s => signText s ++ "inf".toList
  | finite s n h =>
    signText s ++ (if n = 0 then "0.0".toList else debugDecimal (Decimal.shortest n h))

/-- The diagnostic form. -/
def debug (x : Binary64) : String := String.ofList x.debugChars

/-! ### Reading -/

/-- The double nearest to the numeral with the given digits before and after the point. -/
def ofNumeral (negative : Bool) (whole fraction : List Char) : Binary64 :=
  ofDecimal negative (Nat.ofDigitChars 10 (whole ++ fraction) 0) (-(fraction.length : Int))

/-- Reads an unsigned number off the front of `cs`: digits with an optional point among or around
them, `inf` or `NaN`. Also returns the characters after it. -/
def readUnsigned? (negative : Bool) (cs : List Char) : Option (Binary64 × List Char) :=
  match cs with
  | 'i' :: 'n' :: 'f' :: rest => some (inf negative, rest)
  | 'N' :: 'a' :: 'N' :: rest => some (nan, rest)
  | _ =>
    let whole := cs.takeWhile Char.isDigit
    match cs.dropWhile Char.isDigit with
    | '.' :: rest =>
      let fraction := rest.takeWhile Char.isDigit
      if whole.isEmpty && fraction.isEmpty then
        none
      else
        some (ofNumeral negative whole fraction, rest.dropWhile Char.isDigit)
    | rest => if whole.isEmpty then none else some (ofNumeral negative whole [], rest)

/-- Reads a sign, if there is one, and an unsigned number. -/
def readSigned? : List Char → Option (Binary64 × List Char)
  | '+' :: rest => readUnsigned? false rest
  | '-' :: rest => readUnsigned? true rest
  | cs => readUnsigned? false cs

/-- The number that the characters hold, when they hold one and nothing else but blanks. -/
def ofChars? (cs : List Char) : Option Binary64 :=
  match readSigned? (cs.dropWhile Text.isAsciiBlank) with
  | some (x, rest) => if rest.all Text.isAsciiBlank then some x else none
  | none => none

/-- The number a text holds, and NaN when it holds none. -/
def ofText (s : String) : Binary64 := (ofChars? s.toList).getD nan

end Binary64

end Reckon
