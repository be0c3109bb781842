import Mathlib.Algebra.Order.Field.Rat
import Mathlib.Data.Rat.Cast.Order
import Mathlib.Order.Compare
import Mathlib.Order.WithBot
import Reckon.Binary64.Arith

/-!
# Doubles as rational numbers

A finite double is a rational number, `Binary64.toRat?`, and with the infinities at the two ends all
doubles but NaN are extended rationals, `Binary64.toExtended?`. What the operators do with numbers
can so be said without quanta.

* A count is a double that is a natural number (`Binary64.toRat?_eq_natCast_iff`).
* The order of doubles is the order of these numbers (`Binary64.compare?_eq_some_iff`); in
  particular the two zeros are one number, and NaN is none.
-/

namespace Reckon

namespace Binary64

/-- The rational number that is a signed number of quanta. -/
def ratio (negative : Bool) (quanta : Nat) : ℚ := (signed negative quanta : ℚ) / (quantaPerOne : ℚ)

/-- The rational number that a finite double is. -/
def toRat? : Binary64 → Option ℚ
  | finite s n _ => some (ratio s n)
  | _ => none

/-- The number that a double other than NaN is, infinities included. -/
def toExtended? : Binary64 → Option (WithBot (WithTop ℚ))
  | nan => none
  | inf s => some (if s then ⊥ else ⊤)
  | finite s n _ => some ((ratio s n : WithTop ℚ) : WithBot (WithTop ℚ))

theorem quantaPerOne_cast_pos : (0 : ℚ) < (quantaPerOne : ℚ) := by
  exact_mod_cast twoPow_pos 1074

theorem ratio_zero (s : Bool) : ratio s 0 = 0 := by
  have hsigned : signed s 0 = 0 := by cases s <;> rfl
  rw [ratio, hsigned, Int.cast_zero, zero_div]

/-- Only finite doubles are rational numbers. -/
theorem exists_of_toRat? {x : Binary64} {q : ℚ} (h : x.toRat? = some q) :
    ∃ s n hn, x = finite s n hn ∧ ratio s n = q := by
  cases x with
  | finite s n hn => exact ⟨s, n, hn, rfl, Option.some.inj h⟩
  | _ => simp [toRat?] at h

/-! ### Counts -/

theorem ratio_eq_natCast_iff {s : Bool} {n k : Nat} :
    ratio s n = k ↔ n = k * quantaPerOne ∧ (s = true → n = 0) := by
  have hint : ratio s n = k ↔ signed s n = ((k * quantaPerOne : Nat) : Int) := by
    rw [ratio, div_eq_iff quantaPerOne_cast_pos.ne']
    exact_mod_cast Iff.rfl
  rw [hint]
  generalize k * quantaPerOne = m
  cases s with
  | false => simp [signed]
  | true =>
    simp only [signed, if_true, forall_const]
    omega

/-- A double is a natural number `k` if it is that many ones and has no minus in front, unless both
are zero. -/
theorem toRat?_eq_natCast_iff {x : Binary64} {k : Nat} :
    x.toRat? = some (k : ℚ) ↔
      ∃ s n h, x = finite s n h ∧ n = k * quantaPerOne ∧ (s = true → n = 0) := by
  cases x with
  | finite s n h => simp [toRat?, ratio_eq_natCast_iff, h]
  | _ => simp [toRat?]

/-! ### Order -/

theorem ratio_lt_ratio_iff {s t : Bool} {a b : Nat} :
    ratio s a < ratio t b ↔ signed s a < signed t b := by
  rw [ratio, ratio, div_lt_div_iff_of_pos_right quantaPerOne_cast_pos]
  exact_mod_cast Iff.rfl

theorem ratio_eq_ratio_iff {s t : Bool} {a b : Nat} :
    ratio s a = ratio t b ↔ signed s a = signed t b := by
  rw [ratio, ratio, div_left_inj' quantaPerOne_cast_pos.ne']
  exact_mod_cast Iff.rfl

theorem compares_ratio (s t : Bool) (a b : Nat) :
    (compare (signed s a) (signed t b)).Compares (ratio s a) (ratio t b) := by
  cases h : compare (signed s a) (signed t b) with
  | lt => exact ratio_lt_ratio_iff.mpr (compare_lt_iff_lt.mp h)
  | eq => exact ratio_eq_ratio_iff.mpr (compare_eq_iff_eq.mp h)
  | gt => exact ratio_lt_ratio_iff.mpr (compare_gt_iff_gt.mp h)

theorem compares_coe {o : Ordering} {p q : ℚ} (h : o.Compares p q) :
    o.Compares ((p : WithTop ℚ) : WithBot (WithTop ℚ)) ((q : WithTop ℚ) : WithBot (WithTop ℚ)) := by
  cases o with
  | lt => exact WithBot.coe_lt_coe.mpr (WithTop.coe_lt_coe.mpr h)
  | eq => exact congrArg _ (congrArg _ h)
  | gt => exact WithBot.coe_lt_coe.mpr (WithTop.coe_lt_coe.mpr h)

/-- Doubles that are numbers compare as these numbers do. -/
theorem exists_compare? {x y : Binary64} {p q : WithBot (WithTop ℚ)} (hx : x.toExtended? = some p)
    (hy : y.toExtended? = some q) : ∃ o, x.compare? y = some o ∧ o.Compares p q := by
  rcases x with _ | s | ⟨s, a, ha⟩ <;>
    simp only [toExtended?, Option.some.injEq, reduceCtorEq] at hx
  all_goals
    rcases y with _ | t | ⟨t, b, hb⟩ <;>
      simp only [toExtended?, Option.some.injEq, reduceCtorEq] at hy
  all_goals subst hx hy
  case inf.inf => cases s <;> cases t <;> simp [compare?]
  case inf.finite =>
    cases s
    · exact ⟨.gt, rfl, WithBot.coe_lt_coe.mpr (WithTop.coe_lt_top _)⟩
    · exact ⟨.lt, rfl, WithBot.bot_lt_coe _⟩
  case finite.inf =>
    cases t
    · exact ⟨.lt, rfl, WithBot.coe_lt_coe.mpr (WithTop.coe_lt_top _)⟩
    · exact ⟨.gt, rfl, WithBot.bot_lt_coe _⟩
  case finite.finite => exact ⟨_, rfl, compares_coe (compares_ratio s t a b)⟩

theorem nearest_ne_nan (negative : Bool) (num den : Nat) : nearest negative num den ≠ nan := by
  unfold nearest
  dsimp only
  split
  · simp
  · simp

theorem exists_toExtended? {x : Binary64} (h : x ≠ nan) : ∃ p, x.toExtended? = some p := by
  cases x with
  | nan => exact absurd rfl h
  | inf s => exact ⟨_, rfl⟩
  | finite s n hn => exact ⟨_, rfl⟩

private theorem ne_nan_of_compare? {x y : Binary64} {o : Ordering} (h : x.compare? y = some o) :
    x ≠ nan ∧ y ≠ nan := by
  constructor
  · rintro rfl
    simp [compare?] at h
  · rintro rfl
    cases x <;> simp [compare?] at h

/-- **The order of doubles is that of numbers.** Doubles compare if both are numbers, and then as
these numbers do. -/
theorem compare?_eq_some_iff {x y : Binary64} {o : Ordering} :
    x.compare? y = some o ↔
      ∃ p q, x.toExtended? = some p ∧ y.toExtended? = some q ∧ o.Compares p q := by
  constructor
  · intro h
    obtain ⟨hx, hy⟩ := ne_nan_of_compare? h
    obtain ⟨p, hp⟩ := exists_toExtended? hx
    obtain ⟨q, hq⟩ := exists_toExtended? hy
    obtain ⟨o', hcompare, ho'⟩ := exists_compare? hp hq
    obtain rfl : o = o' := Option.some.inj (h.symm.trans hcompare)
    exact ⟨p, q, hp, hq, ho'⟩
  · rintro ⟨p, q, hx, hy, ho⟩
    obtain ⟨o', hcompare, ho'⟩ := exists_compare? hx hy
    rw [hcompare, ho.inj ho']

end Binary64

end Reckon
