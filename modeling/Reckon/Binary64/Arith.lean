import Reckon.Binary64.Basic

/-!
# Arithmetic of doubles

Each operation first settles NaN, infinities and zero divisors, then computes an exact quotient
of naturals in quanta and rounds once. Powers are the exception: they are handed to the `pow` of the
C library through the bit patterns.

The platform refuses some quotients, remainders and powers. What it refuses is settled by
`Binary64.div`, `Binary64.rem` and `Binary64.pow`, either in advance or after the fact.
-/

namespace Reckon

/-- Why the platform refuses an operation on doubles. -/
inductive ArithmeticFault where
  /-- A quotient by zero. -/
  | zeroDivisor
  /-- Operands at which there is no value, or a pole. -/
  | domain
  /-- A value too great for a double. -/
  | range
deriving DecidableEq, Repr

/-- The wording of a refusal. -/
def ArithmeticFault.message : ArithmeticFault → String
  | zeroDivisor => "float division by zero"
  | domain => "math domain error"
  | range => "math range error"

namespace Binary64

/-! ### Sums and products -/

/-- The double with its sign flipped. -/
def neg : Binary64 → Binary64
  | nan => nan
  | inf s => inf (!s)
  | finite s n h => finite (!s) n h

/-- The sum. An exact zero sum is negative only when both summands are. -/
def add : Binary64 → Binary64 → Binary64
  | nan, _ => nan
  | _, nan => nan
  | inf s, inf t => if s = t then inf s else nan
  | inf s, finite .. => inf s
  | finite .., inf t => inf t
  | finite s a _, finite t b _ =>
    let sum := signed s a + signed t b
    if sum = 0 then finite (s && t) 0 representable_zero else nearestInt sum

protected theorem add_comm (x y : Binary64) : x.add y = y.add x := by
  cases x with
  | nan => cases y <;> rfl
  | inf s =>
    cases y with
    | nan => rfl
    | inf t =>
      by_cases h : s = t
      · rw [h]
      · rw [add, add, if_neg h, if_neg (Ne.symm h)]
    | finite t b hb => rfl
  | finite s a ha =>
    cases y with
    | nan => rfl
    | inf t => rfl
    | finite t b hb => rw [add, add, Int.add_comm, Bool.and_comm]

/-- The difference. -/
def sub (x y : Binary64) : Binary64 := add x (neg y)

/-- The product. Zero times infinity is NaN. -/
def mul : Binary64 → Binary64 → Binary64
  | nan, _ => nan
  | _, nan => nan
  | inf s, inf t => inf (s ^^ t)
  | inf s, finite t b _ => if b = 0 then nan else inf (s ^^ t)
  | finite s a _, inf t => if a = 0 then nan else inf (s ^^ t)
  | finite s a _, finite t b _ => nearest (s ^^ t) (a * b) quantaPerOne

protected theorem mul_comm (x y : Binary64) : x.mul y = y.mul x := by
  cases x with
  | nan => cases y <;> rfl
  | inf s =>
    cases y with
    | nan => rfl
    | inf t => rw [mul, mul, Bool.xor_comm]
    | finite t b hb => rw [mul, mul, Bool.xor_comm]
  | finite s a ha =>
    cases y with
    | nan => rfl
    | inf t => rw [mul, mul, Bool.xor_comm]
    | finite t b hb => rw [mul, mul, Bool.xor_comm, Nat.mul_comm]

/-! ### Order -/

/-- The numeric order. NaN compares with nothing, and the two zeros are equal. -/
def compare? : Binary64 → Binary64 → Option Ordering
  | nan, _ => none
  | _, nan => none
  | inf s, inf t => some (if s = t then .eq else if s then .lt else .gt)
  | inf s, finite .. => some (if s then .lt else .gt)
  | finite .., inf t => some (if t then .gt else .lt)
  | finite s a _, finite t b _ => some (compare (signed s a) (signed t b))

/-! ### What the platform offers -/

namespace Platform

/-- The quotient. There is none by zero, not even of NaN. -/
def div (x y : Binary64) : Except ArithmeticFault Binary64 :=
  if y.isZero then
    .error .zeroDivisor
  else
    match x, y with
    | nan, _ => .ok nan
    | _, nan => .ok nan
    | inf _, inf _ => .ok nan
    | inf s, finite t _ _ => .ok (inf (s ^^ t))
    | finite s _ _, inf t => .ok (finite (s ^^ t) 0 representable_zero)
    | finite s a _, finite t b _ => .ok (nearest (s ^^ t) (a * quantaPerOne) b)

/-- The remainder of the quotient truncated toward zero, with the sign of the dividend. There is
none of an infinity or by zero, unless the other operand is NaN. It is exact: the remainder of two
doubles is a double. -/
def fmod : Binary64 → Binary64 → Except ArithmeticFault Binary64
  | nan, _ => .ok nan
  | _, nan => .ok nan
  | inf _, _ => .error .domain
  | x, inf _ => .ok x
  | finite s a _, finite _ b _ => if b = 0 then .error .domain else .ok (nearest s (a % b) 1)

/-- The `pow` of the C library. -/
def cPow (x y : Binary64) : Binary64 :=
  ofBits ((Float.ofBits x.toBits).pow (Float.ofBits y.toBits)).toBits

/-- The power. Between finite numbers NaN is no value, and an infinity is none either: it stands for
a pole if the base is zero, and else for a value that is too great. -/
def pow (x y : Binary64) : Except ArithmeticFault Binary64 :=
  let value := cPow x y
  if x.isFinite && y.isFinite then
    match value with
    | nan => .error .domain
    | inf _ => if x.isZero then .error .domain else .error .range
    | finite .. => .ok value
  else
    .ok value

end Platform

/-! ### Quotients, remainders and powers -/

/-- The quotient. Zero and NaN over zero are NaN, and any other number over zero is an infinity with
the product of the signs. -/
def div (x y : Binary64) : Except ArithmeticFault Binary64 :=
  if y.isZero then
    if x.isZero || x.isNaN then .ok nan else .ok (inf (x.isNegative ^^ y.isNegative))
  else
    Platform.div x y

/-- The remainder, and NaN where there is none. -/
def rem (x y : Binary64) : Except ArithmeticFault Binary64 :=
  if !x.isFinite || y.isZero || y.isNaN then .ok nan else Platform.fmod x y

/-- The power. One that is too great is an infinity, negative if it is an odd power of a negative
number; and so is one at a pole, which has the sign of the zero if the exponent is odd. NaN stands
for all others that there are not. -/
def pow (x y : Binary64) : Except ArithmeticFault Binary64 :=
  match Platform.pow x y with
  | .error .range =>
    if x.compare? zero == some .lt && y.isOddInteger then .ok (inf true) else .ok (inf false)
  | .error .domain =>
    if x.isZero then
      if x.isNegative && y.isOddInteger then .ok (inf true) else .ok (inf false)
    else
      .ok nan
  | outcome => outcome

/-! ### Integers -/

/-- The integer left when the fractional part of a finite double is dropped. -/
def truncate (negative : Bool) (quanta : Nat) : Int := signed negative (quanta / quantaPerOne)

end Binary64

/-! ### 64-bit words -/

namespace Int64Range

/-- The least 64-bit two's complement integer. -/
def least : Int := -(twoPow 63 : Int)

/-- The greatest 64-bit two's complement integer. -/
def greatest : Int := twoPow 63 - 1

/-- The integer of the range that is congruent to `n` modulo `2⁶⁴`. -/
def wrap (n : Int) : Int :=
  let low := n % twoPow 64
  if greatest < low then low - twoPow 64 else low

mutual

/-- A word moved left by `count` places, dropping the bits that leave it. A negative count moves
right. From 64 places on nothing is left. -/
def shiftLeft (word count : Int) : Int :=
  if count < 0 then shiftRight word (-count)
  else if 64 ≤ count then 0
  else wrap (word * twoPow count.toNat)
termination_by (-count).toNat

/-- A word moved right by `count` places, copying its sign. A negative count moves left. From 64
places on only the sign is left. -/
def shiftRight (word count : Int) : Int :=
  if count < 0 then shiftLeft word (-count)
  else if 64 ≤ count then (if word < 0 then -1 else 0)
  else word / twoPow count.toNat
termination_by (-count).toNat

end

/-- The bits of a word of the range as an unsigned number. -/
def bits (word : Int) : Nat := (word % twoPow 64).toNat

/-- A bitwise operation on two words of the range, given by its action on unsigned numbers below
`2⁶⁴`. -/
def bitwise (op : Nat → Nat → Nat) (a b : Int) : Int := wrap (op (bits a) (bits b))

end Int64Range

/-- The double truncated toward zero and saturated to 64 bits. NaN becomes `0`. It is the double
that is compared with the ends of the range, although the greatest integer of the range is no
double. -/
def Binary64.toInt64 : Binary64 → Int
  | .nan => 0
  | .inf s => if s then Int64Range.least else Int64Range.greatest
  | .finite s n _ =>
    if Int64Range.greatest * quantaPerOne ≤ signed s n then Int64Range.greatest
    else if signed s n ≤ Int64Range.least * quantaPerOne then Int64Range.least
    else truncate s n

end Reckon
