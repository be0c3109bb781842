import Mathlib.Data.Rat.Floor
import Reckon.Proofs.Binary64.Rational
import Reckon.Proofs.Binary64.Rounding
import Reckon.Proofs.Binary64.Words

/-!
# Doubles and integers

The integers that are doubles go through `Binary64.ofInt` unchanged (`Binary64.toRat?_ofInt`), and
`Binary64.toInt64` gives the integer part of a double, as far as it is in the range of words
(`Binary64.toInt64_of_toRat?`). That is a statement about rational numbers. The code compares the
double with the ends of the range before it truncates, and the greater end is no double; as the ends
are integers, the integer part would compare in the same way.

Truncating twice is truncating once (`Binary64.toInt64_ofInt_toInt64`): an integer part is a double
again, unless the double was cut to the greatest word, and that rounds to a double past the range.

A sum or product of doubles that is an integer and a double is not rounded (`Binary64.toRat?_add`,
`Binary64.toRat?_mul`).
-/

namespace Reckon

namespace Binary64

open Int64Range

/-! ### Integers as doubles -/

theorem signed_natAbs (n : ℤ) : signed (decide (n < 0)) n.natAbs = n := by
  by_cases h : n < 0
  · simp only [signed, h, decide_true, if_true]
    omega
  · simp only [signed, h, decide_false, if_neg Bool.false_ne_true]
    omega

theorem signed_mul (s : Bool) (k m : ℕ) : signed s (k * m) = signed s k * m := by
  cases s <;> simp [signed]

theorem signed_not (s : Bool) (k : ℕ) : signed (!s) k = -signed s k := by
  cases s <;> simp [signed]

theorem signed_mul_signed (s t : Bool) (k m : ℕ) :
    signed s k * signed t m = signed (s ^^ t) (k * m) := by
  cases s <;> cases t <;> simp [signed]

theorem natAbs_signed (s : Bool) (k : ℕ) : (signed s k).natAbs = k := by
  cases s <;> simp [signed]

/-- The integer is a double. -/
def IsDouble (n : ℤ) : Prop := Representable (n.natAbs * quantaPerOne)

variable {n : ℤ}

theorem ofInt_eq_finite (h : IsDouble n) :
    ofInt n = finite (decide (n < 0)) (n.natAbs * quantaPerOne) h := by
  rw [ofInt, ofRatio, nearest_one _ h]

theorem ratio_mul_quantaPerOne (s : Bool) (k : ℕ) :
    ratio s (k * quantaPerOne) = (signed s k : ℚ) := by
  rw [ratio, signed_mul, Int.cast_mul, Int.cast_natCast,
    mul_div_cancel_right₀ _ quantaPerOne_cast_pos.ne']

theorem toRat?_ofInt (h : IsDouble n) : (ofInt n).toRat? = some (n : ℚ) := by
  have hratio : ratio (decide (n < 0)) (n.natAbs * quantaPerOne) = n := by
    rw [ratio_mul_quantaPerOne, signed_natAbs]
  rw [ofInt_eq_finite h]
  exact congrArg some hratio

private theorem isDouble_zero : IsDouble 0 := by
  rw [IsDouble, Int.natAbs_zero, zero_mul]
  exact representable_zero

/-- **Exact integers.** An integer of at most 53 significant bits is a double. -/
theorem isDouble_mul_pow {m : ℤ} (hm : m.natAbs ≤ 2 ^ 53) {k : ℕ} (hk : k ≤ 64) :
    IsDouble (m * 2 ^ k) := by
  have hquanta : (m * 2 ^ k).natAbs * quantaPerOne = m.natAbs * twoPow (k + 1074) := by
    rw [Int.natAbs_mul, Int.natAbs_pow, twoPow_add, mul_assoc]
    rfl
  rw [IsDouble, hquanta]
  refine .of_mul_twoPow hm ?_
  calc m.natAbs * twoPow (k + 1074) ≤ twoPow 53 * twoPow (k + 1074) := Nat.mul_le_mul_right _ hm
    _ = twoPow (53 + (k + 1074)) := (twoPow_add _ _).symm
    _ < quantaLimit := twoPow_lt_twoPow (by omega)

theorem isDouble_of_natAbs_le (h : n.natAbs ≤ 2 ^ 53) : IsDouble n := by
  have hdouble := isDouble_mul_pow h (Nat.zero_le 64)
  rwa [pow_zero, mul_one] at hdouble

/-! ### Integer parts -/

/-- The integer that is left when the fractional part of a rational number is dropped. -/
def towardZero (q : ℚ) : ℤ := if q < 0 then ⌈q⌉ else ⌊q⌋

@[simp]
theorem towardZero_intCast (n : ℤ) : towardZero (n : ℚ) = n := by simp [towardZero]

theorem towardZero_neg (q : ℚ) : towardZero (-q) = -towardZero q := by
  rcases lt_trichotomy q 0 with hneg | rfl | hpos
  · rw [towardZero, if_neg (by linarith), towardZero, if_pos hneg, Int.floor_neg]
  · simp [towardZero]
  · rw [towardZero, if_pos (by linarith), towardZero, if_neg hpos.not_gt, Int.ceil_neg]

theorem towardZero_le_towardZero {p q : ℚ} (h : p ≤ q) : towardZero p ≤ towardZero q := by
  unfold towardZero
  split_ifs with hp hq hq
  · exact Int.ceil_le_ceil h
  · -- Zero lies between.
    exact (Int.ceil_le.mpr (by exact_mod_cast hp.le)).trans
      (Int.le_floor.mpr (by exact_mod_cast not_lt.mp hq))
  · exact absurd (h.trans_lt hq) hp
  · exact Int.floor_le_floor h

private theorem towardZero_natCast_div (k n : ℕ) : towardZero ((k : ℚ) / n) = (k / n : ℕ) := by
  have hnonneg : (0 : ℚ) ≤ (k : ℚ) / n := by positivity
  rw [towardZero, if_neg hnonneg.not_gt]
  exact Rat.floor_intCast_div_natCast k n

/-- Dropping the fraction of a quotient of integers is the division that truncates. -/
theorem towardZero_div (m n : ℤ) : towardZero ((m : ℚ) / n) = m.tdiv n := by
  obtain ⟨k, rfl | rfl⟩ := m.eq_nat_or_neg <;> obtain ⟨l, rfl | rfl⟩ := n.eq_nat_or_neg
  all_goals
    simp only [Int.cast_neg, Int.cast_natCast, neg_div, div_neg, towardZero_neg,
      towardZero_natCast_div, Int.neg_tdiv, Int.tdiv_neg, Int.ofNat_tdiv]

/-- Whole quanta can be dropped from a double without looking at its sign. -/
theorem towardZero_ratio (s : Bool) (n : ℕ) : towardZero (ratio s n) = truncate s n := by
  have hquotient : ratio s n = (signed s n : ℚ) / ((quantaPerOne : ℤ) : ℚ) := by
    rw [ratio, Int.cast_natCast]
  rw [hquotient, towardZero_div, truncate]
  cases s with
  | false => exact (Int.ofNat_tdiv n quantaPerOne).symm
  | true => exact (Int.neg_tdiv _ _).trans (congrArg Neg.neg (Int.ofNat_tdiv _ _).symm)

/-! ### Saturation -/

private theorem quantaPerOne_intCast_pos :
    (0 : ℤ) < quantaPerOne := by exact_mod_cast quantaPerOne_pos

/-- A bound of integers holds for a double if it holds for its integer part, on the side away from
zero. -/
theorem le_signed_iff (bound : ℤ) (hbound : 0 < bound) (s : Bool) (n : ℕ) :
    bound * quantaPerOne ≤ signed s n ↔ bound ≤ truncate s n := by
  have hscale := quantaPerOne_intCast_pos
  cases s with
  | false => exact (Int.le_ediv_iff_mul_le hscale).symm
  | true =>
    have hpos : 0 < bound * quantaPerOne := mul_pos hbound hscale
    have hquotient : (0 : ℤ) ≤ (n / quantaPerOne : ℕ) := Int.natCast_nonneg _
    simp only [truncate, signed, if_true]
    omega

private theorem signed_le_iff (bound : ℤ) (hbound : bound < 0) (s : Bool) (n : ℕ) :
    signed s n ≤ bound * quantaPerOne ↔ truncate s n ≤ bound := by
  have h := le_signed_iff (-bound) (neg_pos.mpr hbound) (!s) n
  rw [truncate, signed_not, signed_not, neg_mul, neg_le_neg_iff, neg_le_neg_iff] at h
  exact h

theorem greatest_eq : Int64Range.greatest = 2 ^ 63 - 1 := rfl

theorem least_eq : Int64Range.least = -2 ^ 63 := rfl

variable {x : Binary64} {q : ℚ}

/-- **Integer parts.** A double is converted to its integer part, or to the end of the range that
lies on the way there. -/
theorem toInt64_of_toRat? (h : x.toRat? = some q) :
    x.toInt64 = max (-2 ^ 63) (min (2 ^ 63 - 1) (towardZero q)) := by
  obtain ⟨s, n, hn, rfl, rfl⟩ := exists_of_toRat? h
  rw [toInt64, greatest_eq, least_eq, towardZero_ratio]
  simp only [le_signed_iff (2 ^ 63 - 1) (by norm_num), signed_le_iff (-2 ^ 63) (by norm_num)]
  split_ifs with hhigh hlow
  · rw [min_eq_left hhigh, max_eq_right (by norm_num)]
  · rw [min_eq_right (by omega), max_eq_left hlow]
  · rw [min_eq_right (by omega), max_eq_right (by omega)]

theorem toInt64_of_whole (h : x.toRat? = some (n : ℚ)) (hn : InRange 63 n) :
    x.toInt64 = n := by
  rw [toInt64_of_toRat? h, towardZero_intCast, min_eq_right (Int.le_sub_one_of_lt hn.2),
    max_eq_right hn.1]

theorem inRange_toInt64 (x : Binary64) : InRange 63 x.toInt64 := by
  cases x with
  | nan => norm_num [toInt64, InRange]
  | inf s => cases s <;> norm_num [toInt64, greatest_eq, least_eq, InRange]
  | finite s n h =>
    rw [toInt64_of_toRat? rfl]
    exact ⟨le_max_left _ _, max_lt (by norm_num) (min_lt_of_left_lt (by norm_num))⟩

/-- **Conversion is monotone.** -/
theorem toInt64_le_toInt64 {y : Binary64} {p q : WithBot (WithTop ℚ)} (hx : x.toExtended? = some p)
    (hy : y.toExtended? = some q) (h : p ≤ q) : x.toInt64 ≤ y.toInt64 := by
  have hlow := (inRange_toInt64 y).1
  have hhigh := Int.le_sub_one_of_lt (inRange_toInt64 x).2
  cases x with
  | nan => simp [toExtended?] at hx
  | inf s =>
    cases s with
    | true => exact hlow
    | false =>
      obtain rfl : ⊤ = p := Option.some.inj hx
      cases y with
      | nan => simp [toExtended?] at hy
      | inf t =>
        cases t with
        | false => exact le_rfl
        | true => simp [← Option.some.inj hy] at h
      | finite t b hb => simp [← Option.some.inj hy] at h
  | finite s a ha =>
    obtain rfl : ((ratio s a : WithTop ℚ) : WithBot (WithTop ℚ)) = p := Option.some.inj hx
    cases y with
    | nan => simp [toExtended?] at hy
    | inf t =>
      cases t with
      | false => exact hhigh
      | true => simp [← Option.some.inj hy] at h
    | finite t b hb =>
      rw [toInt64_of_toRat? rfl, toInt64_of_toRat? rfl]
      have hratio : ratio s a ≤ ratio t b := by simpa [← Option.some.inj hy] using h
      exact max_le_max le_rfl (min_le_min le_rfl (towardZero_le_towardZero hratio))

/-! ### Converting twice -/

/-- A word that is a double goes there and back. -/
theorem toInt64_ofInt_of_inRange (h : IsDouble n) (hn : InRange 63 n) :
    (ofInt n).toInt64 = n := toInt64_of_whole (toRat?_ofInt h) hn

theorem toInt64_ofInt_least : (ofInt (-2 ^ 63)).toInt64 = -2 ^ 63 := by
  have hdouble : IsDouble (-1 * 2 ^ 63) := isDouble_mul_pow (by norm_num) (by norm_num)
  rw [neg_one_mul] at hdouble
  exact toInt64_ofInt_of_inRange hdouble (by norm_num [InRange])

/-- The greatest word is rounded up, out of the range, and comes back by saturation. -/
theorem toInt64_ofInt_greatest : (ofInt (2 ^ 63 - 1)).toInt64 = 2 ^ 63 - 1 := by
  decide +kernel

private theorem isDouble_towardZero (h : x.toRat? = some q) : IsDouble (towardZero q) := by
  obtain ⟨s, n, hn, rfl, rfl⟩ := exists_of_toRat? h
  rw [IsDouble, towardZero_ratio, truncate, natAbs_signed]
  exact hn.truncated

/-- **Converting twice is converting once.** -/
theorem toInt64_ofInt_toInt64 (x : Binary64) : (ofInt x.toInt64).toInt64 = x.toInt64 := by
  cases x with
  | nan => exact toInt64_ofInt_of_inRange isDouble_zero (inRange_toInt64 nan)
  | inf s =>
    cases s with
    | false => exact toInt64_ofInt_greatest
    | true => exact toInt64_ofInt_least
  | finite s n h =>
    have hpart := toInt64_of_toRat? (x := finite s n h) rfl
    have hdouble := isDouble_towardZero (x := finite s n h) rfl
    generalize towardZero (ratio s n) = part at hpart hdouble
    rw [hpart]
    rcases le_or_gt part (-2 ^ 63) with hlow | hlow
    · rw [min_eq_right (by omega), max_eq_left hlow]
      exact toInt64_ofInt_least
    rcases le_or_gt (2 ^ 63 - 1) part with hhigh | hhigh
    · rw [min_eq_left hhigh, max_eq_right (by norm_num)]
      exact toInt64_ofInt_greatest
    · rw [min_eq_right hhigh.le, max_eq_right hlow.le]
      exact toInt64_ofInt_of_inRange hdouble ⟨hlow.le, by omega⟩

/-! ### Exact sums and products -/

private theorem nearestInt_mul (n : ℤ) : nearestInt (n * quantaPerOne) = ofInt n := by
  have hscale := quantaPerOne_intCast_pos
  have hsign : n * quantaPerOne < 0 ↔ n < 0 := by
    rw [mul_neg_iff]
    omega
  rw [nearestInt, ofInt, ofRatio, Int.natAbs_mul, Int.natAbs_natCast, decide_eq_decide.mpr hsign]

variable {y : Binary64} {p : ℚ}

/-- An integral sum that is a double is not rounded. -/
theorem toRat?_add (hx : x.toRat? = some p) (hy : y.toRat? = some q) (hsum : p + q = n)
    (hdouble : IsDouble n) : (x.add y).toRat? = some (n : ℚ) := by
  obtain ⟨s, a, ha, rfl, rfl⟩ := exists_of_toRat? hx
  obtain ⟨t, b, hb, rfl, rfl⟩ := exists_of_toRat? hy
  have hquanta : signed s a + signed t b = n * quantaPerOne := by
    rw [ratio, ratio, ← add_div, div_eq_iff quantaPerOne_cast_pos.ne'] at hsum
    exact_mod_cast hsum
  rw [add, hquanta]
  split
  next hzero =>
    obtain rfl := (mul_eq_zero.mp hzero).resolve_right quantaPerOne_intCast_pos.ne'
    exact congrArg some (by rw [ratio_zero, Int.cast_zero])
  next => rw [nearestInt_mul, toRat?_ofInt hdouble]

/-- Nor is an integral product that is one. -/
theorem toRat?_mul (hx : x.toRat? = some p) (hy : y.toRat? = some q) (hprod : p * q = n)
    (hdouble : IsDouble n) : (x.mul y).toRat? = some (n : ℚ) := by
  obtain ⟨s, a, ha, rfl, rfl⟩ := exists_of_toRat? hx
  obtain ⟨t, b, hb, rfl, rfl⟩ := exists_of_toRat? hy
  have hquanta : signed (s ^^ t) (a * b) = n * quantaPerOne * quantaPerOne := by
    rw [ratio, ratio, div_mul_div_comm,
      div_eq_iff (mul_pos quantaPerOne_cast_pos quantaPerOne_cast_pos).ne', ← mul_assoc] at hprod
    rw [← signed_mul_signed]
    exact_mod_cast hprod
  have hmagnitude : a * b = n.natAbs * quantaPerOne * quantaPerOne := by
    have h := congrArg Int.natAbs hquanta
    rwa [natAbs_signed, Int.natAbs_mul, Int.natAbs_mul, Int.natAbs_natCast] at h
  have hsigned : signed (s ^^ t) n.natAbs = n := by
    have hscale := quantaPerOne_intCast_pos.ne'
    rw [hmagnitude, signed_mul, signed_mul] at hquanta
    exact mul_right_cancel₀ hscale (mul_right_cancel₀ hscale hquanta)
  rw [mul, hmagnitude, nearest_mul_left _ hdouble quantaPerOne_pos]
  exact congrArg some (by rw [ratio_mul_quantaPerOne, hsigned])

end Binary64

end Reckon
