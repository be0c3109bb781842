import Reckon.Proofs.Binary64.Guarded
import Reckon.Proofs.Eval.Words

/-!
# Remainders

The remainder of two doubles is exact: it is the dividend less a whole number of divisors, with the
quotient truncated toward zero, and nothing is rounded (`Binary64.rem_exact`). That is so although
the exponents of the two can lie two thousand apart, where the quotient is far from being a double.

In quanta the remainder is that of natural numbers, and what has to be shown is that it is a double
(`Representable.mod`). It is less than the divisor and so needs no finer grid than the divisor does.
The dividend is on that grid too, unless it is the lesser of the two; but then it is itself the
remainder. The identity of division is one of integers, where `Int.tdiv` truncates as well.

Remainders of infinities and by zero the platform refuses. There the operator gives NaN, and nowhere
else unless an operand is NaN: its guard keeps from the platform what that would refuse
(`Binary64.Platform.fmod_eq_error_iff`), and no more.
-/

namespace Reckon

/-! ### Representable remainders -/

/-- **Remainders are doubles.** -/
theorem Representable.mod {a b : ℕ} (ha : Representable a) (hb : Representable b) :
    Representable (a % b) := by
  have hle : a % b ≤ a := Nat.mod_le a b
  refine ⟨?_, hle.trans_lt ha.lt⟩
  rcases Nat.lt_or_ge a b with hlt | hge
  · rw [Nat.mod_eq_of_lt hlt]
    exact ha.dvd
  rcases Nat.eq_zero_or_pos b with rfl | hpos
  · rw [Nat.mod_zero]
    exact ha.dvd
  -- The dividend is on the grid of the divisor now, and what is left of it stays there.
  have hgrid : twoPow (spacing b) ∣ a :=
    (twoPow_dvd_twoPow (Binary64.spacing_mono hge)).trans ha.dvd
  have hfiner : twoPow (spacing (a % b)) ∣ twoPow (spacing b) :=
    twoPow_dvd_twoPow (Binary64.spacing_mono (Nat.mod_lt a hpos).le)
  exact hfiner.trans ((Nat.dvd_mod_iff hb.dvd).mpr hgrid)

namespace Binary64

variable {x y r : Binary64} {p q : ℚ}

/-! ### The identity of division -/

private theorem signed_mod (s t : Bool) (a b : ℕ) :
    signed s (a % b) = (signed s a).tmod (signed t b) := by
  cases s <;> cases t <;>
    simp only [signed, if_true, Bool.false_eq_true, if_false, Int.ofNat_tmod, Int.neg_tmod,
      Int.tmod_neg]

/-- The remainder of quanta is the dividend less as many divisors as the truncated quotient says. -/
private theorem ratio_mod (s t : Bool) (a b : ℕ) :
    ratio s (a % b) = ratio s a - ratio t b * towardZero (ratio s a / ratio t b) := by
  have hquotient : ratio s a / ratio t b = (signed s a : ℚ) / (signed t b : ℚ) :=
    div_div_div_cancel_right₀ quantaPerOne_cast_pos.ne' _ _
  have hint : signed s (a % b) = signed s a - signed t b * (signed s a).tdiv (signed t b) := by
    rw [signed_mod s t, Int.tmod_def]
  rw [hquotient, towardZero_div, ratio, ratio, ratio, hint]
  push_cast
  ring

private theorem abs_ratio (s : Bool) (n : ℕ) : |ratio s n| = n / quantaPerOne := by
  have hsigned : |(signed s n : ℚ)| = n := by cases s <;> simp [signed]
  rw [ratio, abs_div, Nat.abs_cast, hsigned]

/-! ### Remainders of doubles -/

/-- The operands have no remainder. -/
def Unreduced (x y : Binary64) : Prop := x.isFinite = false ∨ y.isZero ∨ y.isNaN

private theorem rem_of_unreduced (h : Unreduced x y) : x.rem y = .ok nan := by
  refine if_pos ?_
  simpa [Unreduced, or_assoc] using h

/-- What has a remainder is handed to the platform. -/
theorem rem_eq_fmod (h : ¬Unreduced x y) : x.rem y = Platform.fmod x y := by
  refine if_neg ?_
  simpa [Unreduced, or_assoc] using h

theorem rem_finite {s t : Bool} {a b : ℕ} (ha : Representable a) (hb : Representable b)
    (hne : b ≠ 0) : (finite s a ha).rem (finite t b hb) = .ok (finite s (a % b) (ha.mod hb)) := by
  rw [rem_eq_fmod (by simp [Unreduced, isFinite, isZero, isNaN, hne]), Platform.fmod, if_neg hne,
    nearest_one s (ha.mod hb)]

theorem rem_inf (hx : x.isFinite) (negative : Bool) : x.rem (inf negative) = .ok x := by
  rw [rem_eq_fmod (by simp [Unreduced, hx, isZero, isNaN])]
  cases x with
  | finite s a ha => rfl
  | _ => simp [isFinite] at hx

/-- A remainder is finite and has the sign of the dividend. -/
private theorem exists_rem_finite (h : ¬Unreduced x y) :
    ∃ r, x.rem y = .ok r ∧ r.isFinite ∧ r.isNegative = x.isNegative := by
  obtain ⟨hfinite, hzero, hnan⟩ : x.isFinite ∧ y.isZero = false ∧ y.isNaN = false := by
    simpa [Unreduced] using h
  cases y with
  | nan => simp [isNaN] at hnan
  | inf t => exact ⟨x, rem_inf hfinite t, hfinite, rfl⟩
  | finite t b hb =>
    cases x with
    | finite s a ha => exact ⟨_, rem_finite ha hb (by simpa [isZero] using hzero), rfl, rfl⟩
    | _ => simp [isFinite] at hfinite

theorem rem_eq_nan_iff : x.rem y = .ok nan ↔ Unreduced x y := by
  refine ⟨fun hnan => ?_, rem_of_unreduced⟩
  by_contra h
  obtain ⟨r, hr, hfinite, -⟩ := exists_rem_finite h
  obtain rfl : nan = r := Except.ok.inj (hnan.symm.trans hr)
  simp [isFinite] at hfinite

private theorem fmod_of_rem (hr : x.rem y = .ok r) (hne : r ≠ nan) :
    Platform.fmod x y = .ok r ∧ r.isFinite ∧ r.isNegative = x.isNegative := by
  have h : ¬Unreduced x y := by
    intro hunreduced
    rw [rem_of_unreduced hunreduced] at hr
    exact hne (Except.ok.inj hr).symm
  obtain ⟨r', hr', hfinite, hsign⟩ := exists_rem_finite h
  obtain rfl : r = r' := Except.ok.inj (hr.symm.trans hr')
  exact ⟨(rem_eq_fmod h).symm.trans hr, hfinite, hsign⟩

private theorem exists_rem_toRat? (hx : x.toRat? = some p) (hy : y.toRat? = some q) (hq : q ≠ 0) :
    ∃ r t, x.rem y = .ok r ∧ r.toRat? = some t ∧ t = p - q * towardZero (p / q) ∧ |t| < |q| := by
  obtain ⟨s, a, ha, rfl, rfl⟩ := exists_of_toRat? hx
  obtain ⟨t, b, hb, rfl, rfl⟩ := exists_of_toRat? hy
  have hne : b ≠ 0 := by
    rintro rfl
    exact hq (ratio_zero t)
  refine ⟨_, ratio s (a % b), rem_finite ha hb hne, rfl, ratio_mod s t a b, ?_⟩
  rw [abs_ratio, abs_ratio, div_lt_div_iff_of_pos_right quantaPerOne_cast_pos]
  exact_mod_cast Nat.mod_lt a (Nat.pos_of_ne_zero hne)

private theorem computes_rem (h : x.rem y = .ok r) : Value.Computes .percent x y r :=
  ⟨_, rfl, Value.arithChecked_of_ok h⟩

/-- **Exact remainders.** No error is raised, although the platform refuses remainders of infinities
and by zero: the operator `%` gives a number for any two numbers. That is NaN if the dividend is not
finite or the divisor is zero or NaN, and else the platform's remainder, which there is. It is
finite and has the sign of the dividend. It is the dividend itself if the divisor is infinite, and
else what the truncated quotient leaves of it, and that is less than the divisor. -/
theorem rem_exact :
    (∀ x y : Binary64, ∃ r, x.rem y = .ok r ∧ Value.Computes .percent x y r) ∧
    (∀ (x y : Binary64) (fault : ArithmeticFault), Platform.fmod x y = .error fault ↔
      (x.isFinite = false ∨ y.isZero) ∧ x.isNaN = false ∧ y.isNaN = false ∧ fault = .domain) ∧
    (∀ x y : Binary64, x.rem y = .ok nan ↔ x.isFinite = false ∨ y.isZero ∨ y.isNaN) ∧
    (∀ x y r : Binary64, x.rem y = .ok r → r ≠ nan →
      Platform.fmod x y = .ok r ∧ r.isFinite ∧ r.isNegative = x.isNegative) ∧
    (∀ (x : Binary64) (negative : Bool), x.isFinite → x.rem (inf negative) = .ok x) ∧
    ∀ (x y : Binary64) (p q : ℚ), x.toRat? = some p → y.toRat? = some q → q ≠ 0 →
      ∃ r t, x.rem y = .ok r ∧ r.toRat? = some t ∧ t = p - q * towardZero (p / q) ∧ |t| < |q| := by
  refine ⟨fun x y => ?_, fun _ _ _ => Platform.fmod_eq_error_iff, fun _ _ => rem_eq_nan_iff,
    fun _ _ _ => fmod_of_rem, fun _ negative hx => rem_inf hx negative,
    fun _ _ _ _ => exists_rem_toRat?⟩
  obtain ⟨r, hr⟩ := exists_rem x y
  exact ⟨r, hr, computes_rem hr⟩

/-- At `-2¹⁰²³` and three times the least double, and at a negative zero that is left. -/
theorem rem_exact_far_apart :
    let x := nearest true (2 ^ 2097) 1
    let y := nearest false 3 1
    x.toRat? = some (-2 ^ 1023) ∧ y.toRat? = some (3 / 2 ^ 1074) ∧
    (∃ r t, x.rem y = .ok r ∧ r.toRat? = some t ∧
      t = -2 ^ 1023 - 3 / 2 ^ 1074 * towardZero (-2 ^ 1023 / (3 / 2 ^ 1074)) ∧
      |t| < |3 / 2 ^ 1074|) ∧
    (ofInt (-6)).rem (ofInt 3) = .ok (finite true 0 representable_zero) ∧
    Platform.fmod (ofInt (-6)) (ofInt 3) = .ok (finite true 0 representable_zero) := by
  intro x y
  obtain ⟨-, -, -, hplatform, -, hrem⟩ := rem_exact
  have hx : x.toRat? = some (-2 ^ 1023) := by decide +kernel
  have hy : y.toRat? = some (3 / 2 ^ 1074) := by decide +kernel
  have hzero : (ofInt (-6)).rem (ofInt 3) = .ok (finite true 0 representable_zero) := by
    decide +kernel
  exact ⟨hx, hy, hrem x y _ _ hx hy (by positivity), hzero,
    (hplatform _ _ _ hzero (by simp)).1⟩

end Binary64

end Reckon
