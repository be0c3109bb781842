import Reckon.Binary64.Basic
import Reckon.Decimal.Basic

/-!
# The fewest digits that read back

`shortest` finds a decimal with as few digits as possible that rounds to a given double. For one
digit, two digits, and so on, the double has two neighbours on the grid of decimals with that many
digits; if any decimal of that grid reads back, one of these two does. The first grid with a hit
wins, of two hits the nearer is taken, and a tie goes to the even coefficient.

Seventeen digits always suffice. The search does not rely on that: should no grid hit, the exact
decimal value of the double is returned, so that every answer reads back by construction.
-/

namespace Reckon

namespace Decimal

/-- `n` quanta in units of `10^places`, as a numerator and a denominator. -/
def scaled (n : Nat) (places : Int) : Nat × Nat :=
  if 0 ≤ places then
    (n, quantaPerOne * tenPow places.toNat)
  else
    (n * tenPow (-places).toNat, quantaPerOne)

/-- The number of digits before the point of `n` quanta, counted negatively for zeros after the
point: the `p` with `10 ^ (p - 1) ≤ n quanta < 10 ^ p`. Below one it is read off the reciprocal,
which is taken just short of itself so that powers of ten fall on the right side. -/
def wholePlaces (n : Nat) : Int :=
  if quantaPerOne ≤ n then
    (Nat.toDigits 10 (n / quantaPerOne)).length
  else
    1 - ((Nat.toDigits 10 ((quantaPerOne - 1) / n)).length : Int)

/-- The decimal rounds to `n` quanta. -/
def readsAs (n : Nat) (h : Representable n) (d : Decimal) : Bool :=
  Binary64.ofDecimal false d.coefficient d.exponent == .finite false n h

/-- The two neighbours of `n` quanta on the grid of multiples of `10^places`, the nearer one
first and the even one first in a tie. -/
def neighbours (n : Nat) (places : Int) : List Decimal :=
  let (num, den) := scaled n places
  let low := num / den
  let rest := num % den
  if 2 * rest < den || (2 * rest == den && low % 2 == 0) then
    [⟨low, places⟩, ⟨low + 1, places⟩]
  else
    [⟨low + 1, places⟩, ⟨low, places⟩]

/-- The exact value of `n` quanta. A quantum has 1074 places, so the division is exact. -/
def exact (n : Nat) : Decimal := ⟨n * tenPow 1074 / quantaPerOne, -1074⟩

/-- A decimal of fewest digits that rounds to `n` quanta. -/
def shortest (n : Nat) (h : Representable n) : Decimal :=
  let hit (i : Nat) := (neighbours n (wholePlaces n - 1 - i)).find? (readsAs n h)
  (((List.range 17).findSome? hit).getD (exact n)).trimmed

end Decimal

end Reckon
