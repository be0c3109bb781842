import Reckon.Power

/-!
# Doubles as whole numbers of quanta

Every finite double is a whole number of *quanta*, the quantum being the smallest positive
double, `2⁻¹⁰⁷⁴`. A finite double is therefore kept as a sign and a natural number, and sums,
remainders and comparisons of doubles are sums, remainders and comparisons of integers: the only
inexact step of any operation is one call to `Binary64.nearest` at its end.

Which naturals are doubles is `Representable`: around `n` quanta the doubles lie
`twoPow (spacing n)` apart. A representable natural determines the bit pattern and is determined by
it, so equality of `Binary64` is identity of doubles: it tells `0` from `-0`, and there is one NaN.
-/

namespace Reckon

/-! ### Representable magnitudes -/

/-- One is this many quanta. -/
def quantaPerOne : Nat := twoPow 1074

/-- The first magnitude past the finite doubles, `2¹⁰²⁴`, in quanta. -/
def quantaLimit : Nat := twoPow 2098

/-- Doubles around `n` quanta lie `twoPow (spacing n)` quanta apart: they have 53 significant bits,
and no double is finer than one quantum. -/
def spacing (n : Nat) : Nat := n.log2 - 52

/-- `n` quanta is the magnitude of a finite double. -/
structure Representable (n : Nat) : Prop where
  /-- `n` lies on the grid of the doubles of its size. -/
  dvd : twoPow (spacing n) ∣ n
  /-- `n` is below the overflow threshold. -/
  lt : n < quantaLimit

theorem quantaLimit_pos : 0 < quantaLimit := twoPow_pos 2098

theorem representable_zero : Representable 0 where
  dvd := Nat.dvd_zero _
  lt := quantaLimit_pos

/-- A significand of at most 53 bits, scaled by any power of two, lies on its grid. -/
theorem twoPow_spacing_dvd {m : Nat} (k : Nat) (h : m ≤ twoPow 53) :
    twoPow (spacing (m * twoPow k)) ∣ m * twoPow k := by
  by_cases hm : m = 0
  · simp [hm]
  by_cases htop : m = twoPow 53
  · rw [htop, ← twoPow_add, spacing, log2_twoPow]
    exact twoPow_dvd_twoPow (by omega)
  have hpos : m * twoPow k ≠ 0 := Nat.mul_ne_zero hm (Nat.ne_of_gt (twoPow_pos k))
  have hlt : m * twoPow k < twoPow (53 + k) := by
    rw [twoPow_add]
    exact Nat.mul_lt_mul_of_pos_right (by omega) (twoPow_pos k)
  have hlog := (log2_lt_iff_lt_twoPow hpos).2 hlt
  exact Nat.dvd_trans (twoPow_dvd_twoPow (by unfold spacing; omega)) (Nat.dvd_mul_left _ _)

/-! ### The type -/

/-- An IEEE 754 double. All NaNs are one value; the sign of zero is kept. -/
inductive Binary64 where
  /-- Not a number. -/
  | nan
  /-- An infinity. -/
  | inf (negative : Bool)
  /-- A finite double, as a sign and a number of quanta. -/
  | finite (negative : Bool) (quanta : Nat) (representable : Representable quanta)
deriving DecidableEq

namespace Binary64

/-- Positive zero. -/
def zero : Binary64 := finite false 0 representable_zero

instance : Inhabited Binary64 := ⟨zero⟩

/-- A signed number of quanta as an integer; both zeros become `0`. -/
def signed (negative : Bool) (quanta : Nat) : Int :=
  if negative then -(quanta : Int) else quanta

/-! ### Rounding -/

/-- The quotient of two naturals rounded to the nearest natural, a tie going to the even one. -/
def roundDiv (num den : Nat) : Nat :=
  let q := num / den
  let r := num % den
  if den < 2 * r || (2 * r == den && q % 2 == 1) then q + 1 else q

theorem roundDiv_le (num den : Nat) : roundDiv num den ≤ num / den + 1 := by
  simp only [roundDiv]; split <;> omega

/-- The number of quanta nearest to `num / den` quanta on the grid of the doubles of that size,
ties going to the even significand. It is past `quantaLimit` when the quotient overflows. -/
def nearestQuanta (num den : Nat) : Nat :=
  let k := spacing (num / den)
  roundDiv num (den * twoPow k) * twoPow k

theorem twoPow_spacing_dvd_nearestQuanta (num den : Nat) :
    twoPow (spacing (nearestQuanta num den)) ∣ nearestQuanta num den := by
  refine twoPow_spacing_dvd _ ?_
  refine Nat.le_trans (roundDiv_le _ _) (Nat.succ_le_of_lt ?_)
  rw [← Nat.div_div_eq_div_mul, Nat.div_lt_iff_lt_mul (twoPow_pos _)]
  refine Nat.lt_of_lt_of_le (lt_twoPow_log2 _) ?_
  rw [← twoPow_add]
  exact twoPow_le_twoPow (by unfold spacing; omega)

/-- The double nearest to `num / den` quanta with the given sign: to nearest, ties to even, and an
infinity past the largest finite double. -/
def nearest (negative : Bool) (num den : Nat) : Binary64 :=
  let n := nearestQuanta num den
  if h : n < quantaLimit then
    finite negative n ⟨twoPow_spacing_dvd_nearestQuanta num den, h⟩
  else
    inf negative

/-- A quotient without remainder is its own rounding. -/
theorem roundDiv_mul_left {den : Nat} (h : 0 < den) (q : Nat) : roundDiv (q * den) den = q := by
  have hden : den ≠ 0 := Nat.ne_of_gt h
  have hlt : ¬ den < 0 := Nat.not_lt_zero den
  simp [roundDiv, Nat.mul_div_cancel q h, Nat.mul_mod_left, hlt, hden.symm]

/-- Rounding leaves a number of quanta alone that a double can have, however its quotient is
written. -/
theorem nearestQuanta_mul_left {n den : Nat} (hn : Representable n) (hden : 0 < den) :
    nearestQuanta (n * den) den = n := by
  obtain ⟨m, hm⟩ := hn.dvd
  have hpow := twoPow_pos (spacing n)
  have hsplit : n * den = m * (den * twoPow (spacing n)) := by
    calc n * den = twoPow (spacing n) * m * den := by rw [← hm]
      _ = m * (den * twoPow (spacing n)) := by
        rw [Nat.mul_comm (twoPow (spacing n)) m, Nat.mul_assoc,
          Nat.mul_comm (twoPow (spacing n)) den]
  simp only [nearestQuanta, Nat.mul_div_cancel n hden]
  rw [hsplit, roundDiv_mul_left (Nat.mul_pos hden hpow), Nat.mul_comm]
  exact hm.symm

/-- A double is its own rounding. -/
theorem nearest_mul_left {n den : Nat} (negative : Bool) (hn : Representable n) (hden : 0 < den) :
    nearest negative (n * den) den = finite negative n hn := by
  have hlt := hn.lt
  simp [nearest, nearestQuanta_mul_left hn hden, hlt]

/-- The double nearest to an integral number of quanta. Zero comes out positive. -/
def nearestInt (n : Int) : Binary64 := nearest (n < 0) n.natAbs 1

/-- The double nearest to the rational `num / den` with the given sign. -/
def ofRatio (negative : Bool) (num den : Nat) : Binary64 :=
  nearest negative (num * quantaPerOne) den

/-- The double nearest to an integer. Zero comes out positive. -/
def ofInt (n : Int) : Binary64 := ofRatio (n < 0) n.natAbs 1

/-- The number one. -/
def one : Binary64 := ofInt 1

/-- The double nearest to `coefficient` times ten to the power `exponent`, with the given sign. -/
def ofDecimal (negative : Bool) (coefficient : Nat) (exponent : Int) : Binary64 :=
  if 0 ≤ exponent then
    ofRatio negative (coefficient * tenPow exponent.toNat) 1
  else
    ofRatio negative coefficient (tenPow (-exponent).toNat)

/-! ### Classification -/

/-- The double is NaN. -/
def isNaN : Binary64 → Bool
  | nan => true
  | _ => false

/-- The double is neither NaN nor infinite. -/
def isFinite : Binary64 → Bool
  | finite .. => true
  | _ => false

/-- The double is one of the two zeros. -/
def isZero : Binary64 → Bool
  | finite _ n _ => n == 0
  | _ => false

/-- The double has a minus sign, as zeros and infinities can have. -/
def isNegative : Binary64 → Bool
  | nan => false
  | inf s => s
  | finite s _ _ => s

/-- The double is an odd integer. -/
def isOddInteger : Binary64 → Bool
  | finite _ n _ => n % quantaPerOne == 0 && n / quantaPerOne % 2 == 1
  | _ => false

/-! ### Bit patterns -/

/-- The sign bit of the interchange format. -/
def signBit (negative : Bool) : Nat := if negative then twoPow 63 else 0

/-- The interchange format. The significand is `n` without its trailing `spacing n` bits; its
leading bit, present exactly for normal doubles, adds the one by which the exponent field exceeds
`spacing n`. -/
def toBits : Binary64 → UInt64
  | nan => 0x7ff8000000000000
  | inf s => (signBit s + 2047 * twoPow 52).toUInt64
  | finite s n _ => (signBit s + spacing n * twoPow 52 + n / twoPow (spacing n)).toUInt64

/-- The double of a bit pattern; every NaN payload becomes the one NaN. -/
def ofBits (bits : UInt64) : Binary64 :=
  let negative := twoPow 63 ≤ bits.toNat
  let exponent := bits.toNat / twoPow 52 % twoPow 11
  let fraction := bits.toNat % twoPow 52
  if exponent = 2047 then
    if fraction = 0 then inf negative else nan
  else if exponent = 0 then
    nearest negative fraction 1
  else
    nearest negative ((twoPow 52 + fraction) * twoPow (exponent - 1)) 1

end Binary64

end Reckon
