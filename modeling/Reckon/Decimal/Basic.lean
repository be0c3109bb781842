/-!
# Decimals and how they are laid out

A `Decimal` is a natural coefficient scaled by a power of ten. This file holds the two layouts in
which one is written: `positional`, which never uses an exponent, and `scientific`, which always
does.
-/

namespace Reckon

/-- The number `coefficient * 10 ^ exponent`. -/
structure Decimal where
  coefficient : Nat
  exponent : Int
deriving DecidableEq, Repr

namespace Decimal

/-- A coefficient without its trailing zeros and the exponent that makes up for them. Zero is left
alone. -/
def trimZeros (coefficient : Nat) (exponent : Int) : Decimal :=
  if coefficient ≠ 0 ∧ coefficient % 10 = 0 then
    trimZeros (coefficient / 10) (exponent + 1)
  else
    ⟨coefficient, exponent⟩
termination_by coefficient
decreasing_by omega

/-- The same number with a coefficient that does not end in zero. -/
def trimmed (d : Decimal) : Decimal := trimZeros d.coefficient d.exponent

/-- The digits of the coefficient. -/
def digits (d : Decimal) : List Char := Nat.toDigits 10 d.coefficient

/-- The power of ten of the leading digit. -/
def leadingExponent (d : Decimal) : Int := d.digits.length + d.exponent - 1

/-- The number with all its places written out, and no point when it needs none. -/
def positional (d : Decimal) : List Char :=
  if 0 ≤ d.exponent then
    d.digits ++ List.replicate d.exponent.toNat '0'
  else
    let places := (-d.exponent).toNat
    let size := d.digits.length
    if places < size then
      d.digits.take (size - places) ++ '.' :: d.digits.drop (size - places)
    else
      '0' :: '.' :: (List.replicate (places - size) '0' ++ d.digits)

/-- The exponent mark, its sign and at least two digits. -/
def exponentText (e : Int) : List Char :=
  let body := Nat.toDigits 10 e.natAbs
  'e' :: (if e < 0 then '-' else '+') :: (List.replicate (2 - body.length) '0' ++ body)

/-- One digit, the remaining digits after a point if there are any, and the exponent. -/
def scientific (d : Decimal) : List Char :=
  let fraction := d.digits.drop 1
  d.digits.take 1 ++ (if fraction.isEmpty then [] else '.' :: fraction)
    ++ exponentText d.leadingExponent

end Decimal

end Reckon
