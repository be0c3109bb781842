import Mathlib.Algebra.Order.Field.Rat
import Mathlib.Tactic.Linarith
import Mathlib.Tactic.Ring
import Reckon.Binary64.Basic

/-!
# Rounding to the nearest double

What other files have to know about `Binary64.nearest`, in numbers of quanta.

* A number of quanta with 53 significant bits is a double and is its own rounding
  (`Representable.of_mul_twoPow`, `Binary64.nearest_one`).
* Rounding is monotone (`Binary64.nearestQuanta_mono`). Between two powers of two it is a division
  rounded to the nearest natural number, and that is monotone by a description of the quotients that
  round to at most `k` (`Binary64.roundDiv_le_iff`). Where the spacing of the doubles changes, a
  power of two lies between the results.
* No double is nearer than the rounding (`Binary64.nearestQuanta_near`), and two doubles differ by
  at least one part in `2⁵³` (`Binary64.le_twoPow_mul_sub`). What is much closer to a double than
  that rounds to it (`Binary64.nearestQuanta_eq_of_near`).

`Binary64.roundQuanta` says all this of rational numbers, whatever fraction they are written as.
-/

namespace Reckon

/-! ### Representable magnitudes -/

theorem twoPow_lt_twoPow {a b : Nat} (h : a < b) : twoPow a < twoPow b :=
  Nat.pow_lt_pow_right (by decide) h

theorem Binary64.quantaPerOne_pos : 0 < quantaPerOne := twoPow_pos 1074

/-- A significand of at most 53 bits makes a double at any scale, short of the overflow. -/
theorem Representable.of_mul_twoPow {m k : Nat} (hm : m ≤ twoPow 53)
    (hlt : m * twoPow k < quantaLimit) : Representable (m * twoPow k) :=
  ⟨twoPow_spacing_dvd k hm, hlt⟩

theorem representable_quantaPerOne : Representable quantaPerOne where
  dvd := by
    rw [spacing, quantaPerOne, log2_twoPow]
    exact twoPow_dvd_twoPow (by decide)
  lt := twoPow_lt_twoPow (by decide)

/-- From `2⁵³` on, doubles are spaced by whole numbers. -/
theorem quantaPerOne_dvd_twoPow_spacing {n : Nat} (h : twoPow 53 * quantaPerOne ≤ n) :
    quantaPerOne ∣ twoPow (spacing n) := by
  rw [quantaPerOne, ← twoPow_add] at h
  have hpos : n ≠ 0 := by
    have := twoPow_pos (53 + 1074)
    omega
  have hlog : 53 + 1074 ≤ n.log2 := by
    by_contra hlog
    have := (log2_lt_iff_lt_twoPow hpos).mp (not_le.mp hlog)
    omega
  exact twoPow_dvd_twoPow (by unfold spacing; omega)

/-- The fractional part of a double can be dropped: from `2⁵³` on there is none, and below there are
at most 53 bits in front of it. -/
theorem Representable.truncated {n : Nat} (h : Representable n) :
    Representable (n / quantaPerOne * quantaPerOne) := by
  have hle : n / quantaPerOne * quantaPerOne ≤ n := Nat.div_mul_le_self n quantaPerOne
  rcases Nat.lt_or_ge (twoPow 53) (n / quantaPerOne) with hlarge | hsmall
  · have hscale := (Nat.le_div_iff_mul_le Binary64.quantaPerOne_pos).mp hlarge.le
    rwa [Nat.div_mul_cancel ((quantaPerOne_dvd_twoPow_spacing hscale).trans h.dvd)]
  · exact .of_mul_twoPow hsmall (hle.trans_lt h.lt)

namespace Binary64

theorem nearest_eq_finite_iff {negative : Bool} {num den n : Nat} {h : Representable n} :
    nearest negative num den = finite negative n h ↔ nearestQuanta num den = n := by
  unfold nearest
  dsimp only
  split
  next hlt => simp
  next hge =>
    refine iff_of_false (by simp) ?_
    rintro rfl
    exact hge h.lt

/-- A number of quanta that a double can have is its own rounding. -/
theorem nearestQuanta_one {n : Nat} (h : Representable n) : nearestQuanta n 1 = n := by
  have hself := nearestQuanta_mul_left h Nat.one_pos
  rwa [Nat.mul_one] at hself

theorem nearest_one (negative : Bool) {n : Nat} (h : Representable n) :
    nearest negative n 1 = finite negative n h := nearest_eq_finite_iff.mpr (nearestQuanta_one h)

/-- Whole numbers round to whole numbers. -/
theorem quantaPerOne_dvd_nearestQuanta (k : Nat) :
    quantaPerOne ∣ nearestQuanta (k * quantaPerOne) 1 := by
  rcases Nat.le_total k (twoPow 53) with hsmall | hlarge
  · have hlt : k * quantaPerOne < quantaLimit := by
      calc k * quantaPerOne ≤ twoPow 53 * quantaPerOne := Nat.mul_le_mul_right _ hsmall
        _ = twoPow (53 + 1074) := by rw [quantaPerOne, twoPow_add]
        _ < quantaLimit := twoPow_lt_twoPow (by omega)
    have hrep : Representable (k * quantaPerOne) := .of_mul_twoPow hsmall hlt
    rw [nearestQuanta_one hrep]
    exact Nat.dvd_mul_left quantaPerOne k
  · have hspacing : quantaPerOne ∣ twoPow (spacing (k * quantaPerOne / 1)) := by
      rw [Nat.div_one]
      exact quantaPerOne_dvd_twoPow_spacing (Nat.mul_le_mul_right _ hlarge)
    exact hspacing.trans (Nat.dvd_mul_left _ _)

/-! ### Rounded quotients -/

theorem div_le_roundDiv (num den : Nat) : num / den ≤ roundDiv num den := by
  simp only [roundDiv]
  split <;> omega

/-- **Rounded quotients.** A quotient rounds to at most `k` if it lies below the middle between `k`
and its successor, or in the middle and `k` is even. -/
theorem roundDiv_le_iff {num den k : Nat} (hden : 0 < den) :
    roundDiv num den ≤ k ↔
      2 * num < (2 * k + 1) * den ∨ 2 * num = (2 * k + 1) * den ∧ k % 2 = 0 := by
  have hrest : num % den < den := Nat.mod_lt num hden
  have hnum : den * (num / den) + num % den = num := Nat.div_add_mod num den
  unfold roundDiv
  generalize num / den = q at hnum ⊢
  generalize num % den = r at hrest hnum ⊢
  subst hnum
  dsimp only
  rcases lt_trichotomy k q with hlt | rfl | hgt
  · -- All quotients with this integer part round to more.
    have hmul : (2 * k + 2) * den ≤ 2 * q * den := Nat.mul_le_mul_right den (by omega)
    refine iff_of_false ?_ ?_
    · split <;> omega
    · rintro (h | ⟨h, -⟩) <;> nlinarith
  · split
    next hup =>
      refine iff_of_false (by omega) ?_
      simp only [Bool.or_eq_true, decide_eq_true_eq, Bool.and_eq_true, beq_iff_eq] at hup
      rintro (h | ⟨h, heven⟩)
      · rcases hup with hup | ⟨hup, -⟩ <;> nlinarith
      · rcases hup with hup | ⟨-, hodd⟩
        · nlinarith
        · omega
    next hdown =>
      refine iff_of_true le_rfl ?_
      simp only [Bool.or_eq_true, decide_eq_true_eq, Bool.and_eq_true, beq_iff_eq, not_or, not_lt,
        not_and] at hdown
      rcases hdown.1.lt_or_eq with hlt | heq
      · exact .inl (by nlinarith)
      · exact .inr ⟨by nlinarith, by have := hdown.2 heq; omega⟩
  · -- All quotients with this integer part round to less.
    have hmul : (2 * q + 2) * den ≤ 2 * k * den := Nat.mul_le_mul_right den (by omega)
    refine iff_of_true ?_ (.inl (by nlinarith))
    split <;> omega

theorem roundDiv_mono {a b c d : Nat} (hb : 0 < b) (hd : 0 < d) (h : a * d ≤ c * b) :
    roundDiv a b ≤ roundDiv c d := by
  have hbound := (roundDiv_le_iff hd).mp (le_refl (roundDiv c d))
  generalize roundDiv c d = k at hbound
  rw [roundDiv_le_iff hb]
  rcases hbound with hlt | ⟨heq, heven⟩
  · left
    refine Nat.lt_of_mul_lt_mul_right (a := d) ?_
    nlinarith
  · have hle : 2 * a ≤ (2 * k + 1) * b := by
      refine Nat.le_of_mul_le_mul_right ?_ hd
      nlinarith
    rcases hle.lt_or_eq with hlt | heq
    · exact .inl hlt
    · exact .inr ⟨heq, heven⟩

/-! ### Monotonicity -/

theorem spacing_mono {n m : Nat} (h : n ≤ m) : spacing n ≤ spacing m := by
  rcases Nat.eq_zero_or_pos n with rfl | hpos
  · simp [spacing]
  · have hlog : n.log2 ≤ m.log2 :=
      (Nat.le_log2 (by omega)).mpr ((Nat.log2_self_le (by omega)).trans h)
    unfold spacing
    omega

private theorem lt_twoPow_spacing (n : Nat) : n < twoPow (53 + spacing n) :=
  (lt_twoPow_log2 n).trans_le (twoPow_le_twoPow (by unfold spacing; omega))

private theorem twoPow_spacing_le {n : Nat} (h : 0 < spacing n) : twoPow (52 + spacing n) ≤ n := by
  have hlog : n.log2 = 52 + spacing n := by
    unfold spacing at h ⊢
    omega
  rw [← hlog]
  refine Nat.log2_self_le fun hzero => ?_
  rw [hzero, Nat.log2_zero] at hlog
  omega

/-- The results of one spacing do not go past the power of two at which the next one begins. -/
theorem nearestQuanta_le (num den : Nat) :
    nearestQuanta num den ≤ twoPow (53 + spacing (num / den)) := by
  rw [nearestQuanta, twoPow_add]
  refine Nat.mul_le_mul_right _ ((roundDiv_le _ _).trans (Nat.succ_le_of_lt ?_))
  rw [← Nat.div_div_eq_div_mul, Nat.div_lt_iff_lt_mul (twoPow_pos _), ← twoPow_add]
  exact lt_twoPow_spacing _

/-- Nor do they go below the power of two at which it begins itself. -/
theorem le_nearestQuanta {num den : Nat} (h : 0 < spacing (num / den)) :
    twoPow (52 + spacing (num / den)) ≤ nearestQuanta num den := by
  rw [nearestQuanta, twoPow_add]
  refine Nat.mul_le_mul_right _ (le_trans ?_ (div_le_roundDiv _ _))
  rw [← Nat.div_div_eq_div_mul, Nat.le_div_iff_mul_le (twoPow_pos _), ← twoPow_add]
  exact twoPow_spacing_le h

/-- **Rounding is monotone.** -/
theorem nearestQuanta_mono {a b c d : Nat} (hb : 0 < b) (hd : 0 < d) (h : a * d ≤ c * b) :
    nearestQuanta a b ≤ nearestQuanta c d := by
  have hdiv : a / b ≤ c / d := by
    rw [Nat.le_div_iff_mul_le hd]
    refine Nat.le_of_mul_le_mul_right ?_ hb
    calc a / b * d * b = a / b * b * d := Nat.mul_right_comm _ _ _
      _ ≤ a * d := Nat.mul_le_mul_right d (Nat.div_mul_le_self a b)
      _ ≤ c * b := h
  rcases (spacing_mono hdiv).lt_or_eq with hlt | heq
  · -- A power of two lies between.
    calc nearestQuanta a b ≤ twoPow (53 + spacing (a / b)) := nearestQuanta_le a b
      _ ≤ twoPow (52 + spacing (c / d)) := twoPow_le_twoPow (by omega)
      _ ≤ nearestQuanta c d := le_nearestQuanta (by omega)
  · simp only [nearestQuanta, heq]
    refine Nat.mul_le_mul_right _ (roundDiv_mono ?_ ?_ ?_)
    · exact Nat.mul_pos hb (twoPow_pos _)
    · exact Nat.mul_pos hd (twoPow_pos _)
    · calc a * (d * twoPow (spacing (c / d))) = a * d * twoPow (spacing (c / d)) :=
            (Nat.mul_assoc _ _ _).symm
        _ ≤ c * b * twoPow (spacing (c / d)) := Nat.mul_le_mul_right _ h
        _ = c * (b * twoPow (spacing (c / d))) := Nat.mul_assoc _ _ _

/-! ### Nearness -/

variable {num den m n w : Nat}

/-- No natural number is nearer to a quotient than its rounding: where one is within `w`, so is the
rounding. -/
private theorem roundDiv_near (hden : 0 < den) (hlow : m * den ≤ num + w)
    (hhigh : num ≤ m * den + w) :
    roundDiv num den * den ≤ num + w ∧ num ≤ roundDiv num den * den + w := by
  have hbelow : 2 * num ≤ (2 * roundDiv num den + 1) * den :=
    ((roundDiv_le_iff hden).mp le_rfl).elim le_of_lt fun h => h.1.le
  have habove (k : Nat) (hk : k < roundDiv num den) : (2 * k + 1) * den ≤ 2 * num := by
    by_contra hlt
    exact absurd ((roundDiv_le_iff hden).mpr (.inl (not_le.mp hlt))) (not_le.mpr hk)
  generalize roundDiv num den = r at hbelow habove ⊢
  rcases lt_trichotomy m r with hlt | rfl | hgt
  · obtain ⟨k, rfl⟩ := Nat.exists_eq_add_one_of_ne_zero (Nat.ne_zero_of_lt hlt)
    have hhalf := habove k k.lt_succ_self
    have hmul : m * den ≤ k * den := Nat.mul_le_mul_right den (Nat.le_of_lt_succ hlt)
    constructor <;> nlinarith
  · exact ⟨hlow, hhigh⟩
  · have hmul : (r + 1) * den ≤ m * den := Nat.mul_le_mul_right den hgt
    constructor <;> nlinarith

/-- No double is nearer to a quotient than its rounding. -/
theorem nearestQuanta_near (hden : 0 < den) (hm : twoPow (spacing m) ∣ m)
    (hlow : m * den ≤ num + w) (hhigh : num ≤ m * den + w) :
    nearestQuanta num den * den ≤ num + w ∧ num ≤ nearestQuanta num den * den + w := by
  -- On the grid of the rounding this is a fact about quotients.
  have hgrid (k : Nat) (hlow : k * twoPow (spacing (num / den)) * den ≤ num + w)
      (hhigh : num ≤ k * twoPow (spacing (num / den)) * den + w) :
      nearestQuanta num den * den ≤ num + w ∧ num ≤ nearestQuanta num den * den + w := by
    rw [mul_assoc, mul_comm (twoPow _)] at hlow hhigh
    rw [nearestQuanta, mul_assoc, mul_comm (twoPow _)]
    exact roundDiv_near (Nat.mul_pos hden (twoPow_pos _)) hlow hhigh
  rcases le_or_gt (spacing (num / den)) (spacing m) with hle | hlt
  · obtain ⟨k, rfl⟩ := (twoPow_dvd_twoPow hle).trans hm
    rw [mul_comm (twoPow _) k] at hlow hhigh
    exact hgrid k hlow hhigh
  · -- A finer grid ends below the power of two at which this one begins.
    have hbegin : twoPow 52 * twoPow (spacing (num / den)) * den ≤ num := by
      rw [← Nat.le_div_iff_mul_le hden, ← twoPow_add]
      exact twoPow_spacing_le (Nat.zero_lt_of_lt hlt)
    have hend : m * den ≤ twoPow 52 * twoPow (spacing (num / den)) * den := by
      rw [← twoPow_add]
      refine Nat.mul_le_mul_right den ((lt_twoPow_spacing m).le.trans (twoPow_le_twoPow ?_))
      omega
    exact hgrid (twoPow 52) (by omega) (by omega)

/-- **Gaps.** Two doubles differ by at least one part in `2⁵³` of the greater one. -/
theorem le_twoPow_mul_sub (hm : twoPow (spacing m) ∣ m) (hn : twoPow (spacing n) ∣ n)
    (h : m < n) : n ≤ twoPow 53 * (n - m) := by
  have hstep {k : Nat} (hk : twoPow (spacing m) ∣ k) (hlt : m < k) :
      twoPow (53 + spacing m) ≤ twoPow 53 * (k - m) := by
    rw [twoPow_add]
    exact Nat.mul_le_mul_left _ (Nat.le_of_dvd (by omega) (Nat.dvd_sub hk hm))
  rcases le_or_gt (twoPow (53 + spacing m)) n with hle | hlt
  · have hgap := hstep (twoPow_dvd_twoPow (Nat.le_add_left _ _)) (lt_twoPow_spacing m)
    have hlarge : n - twoPow (53 + spacing m) ≤ twoPow 53 * (n - twoPow (53 + spacing m)) :=
      Nat.le_mul_of_pos_left _ (twoPow_pos 53)
    have hsplit : n - m = (n - twoPow (53 + spacing m)) + (twoPow (53 + spacing m) - m) := by
      have := lt_twoPow_spacing m
      omega
    rw [hsplit, Nat.mul_add]
    omega
  · exact hlt.le.trans (hstep ((twoPow_dvd_twoPow (spacing_mono h.le)).trans hn) h)

/-- A quotient nearer to a double than half of the least gap there is rounds to it. -/
theorem nearestQuanta_eq_of_near (hden : 0 < den) (hn : Representable n)
    (hlow : n * den ≤ num + w) (hhigh : num ≤ n * den + w) (hw : twoPow 54 * w < n * den) :
    nearestQuanta num den = n := by
  obtain ⟨hbelow, habove⟩ := nearestQuanta_near hden hn.dvd hlow hhigh
  have hgrid := twoPow_spacing_dvd_nearestQuanta num den
  generalize nearestQuanta num den = r at hbelow habove hgrid ⊢
  -- Another rounding would be two deviations away at most, and that is less than the gap.
  have hfar {a b : Nat} (hgap : n ≤ twoPow 53 * (b - a)) (hdist : b * den ≤ a * den + 2 * w) :
      False := by
    have hsub : (b - a) * den ≤ 2 * w := by
      rw [Nat.sub_mul]
      omega
    have : n * den ≤ twoPow 54 * w := by
      calc n * den ≤ twoPow 53 * (b - a) * den := Nat.mul_le_mul_right den hgap
        _ = twoPow 53 * ((b - a) * den) := Nat.mul_assoc _ _ _
        _ ≤ twoPow 53 * (2 * w) := Nat.mul_le_mul_left _ hsub
        _ = twoPow 54 * w := (Nat.mul_assoc _ _ _).symm
    omega
  rcases lt_trichotomy r n with hlt | heq | hgt
  · exact (hfar (le_twoPow_mul_sub hgrid hn.dvd hlt) (by omega)).elim
  · exact heq
  · exact (hfar (hgt.le.trans (le_twoPow_mul_sub hn.dvd hgrid hgt)) (by omega)).elim

/-! ### Rational numbers of quanta -/

/-- The rounding of a rational number of quanta. What is negative counts as zero. -/
def roundQuanta (q : ℚ) : Nat := nearestQuanta q.num.toNat q.den

variable {p q r : ℚ}

private theorem natCast_toNat_num (hq : 0 ≤ q) : (q.num.toNat : ℚ) = q * q.den := by
  have hcast : ((q.num.toNat : ℤ) : ℚ) = q.num := by
    rw [Int.toNat_of_nonneg (Rat.num_nonneg.mpr hq)]
  rw [Rat.mul_den_eq_num, ← hcast, Int.cast_natCast]

theorem roundQuanta_div (num : Nat) (hden : 0 < den) :
    roundQuanta ((num : ℚ) / den) = nearestQuanta num den := by
  have hpos : (0 : ℚ) < den := by exact_mod_cast hden
  have hcross : ((num : ℚ) / den).num.toNat * den = num * ((num : ℚ) / den).den := by
    have hnum := natCast_toNat_num (div_nonneg (Nat.cast_nonneg num) hpos.le)
    rw [div_mul_eq_mul_div, eq_div_iff hpos.ne'] at hnum
    exact_mod_cast hnum
  exact le_antisymm (nearestQuanta_mono (Rat.den_pos _) hden hcross.le)
    (nearestQuanta_mono hden (Rat.den_pos _) hcross.ge)

theorem roundQuanta_natCast (hn : Representable n) : roundQuanta n = n := by
  have hdiv := roundQuanta_div n Nat.one_pos
  rw [Nat.cast_one, div_one] at hdiv
  exact hdiv.trans (nearestQuanta_one hn)

private theorem roundQuanta_le_roundQuanta (hp : 0 ≤ p) (h : p ≤ q) :
    roundQuanta p ≤ roundQuanta q := by
  refine nearestQuanta_mono p.den_pos q.den_pos ?_
  have hcast : (p.num.toNat : ℚ) * q.den ≤ q.num.toNat * p.den := by
    rw [natCast_toNat_num hp, natCast_toNat_num (hp.trans h), mul_right_comm q]
    exact mul_le_mul_of_nonneg_right (mul_le_mul_of_nonneg_right h (Nat.cast_nonneg _))
      (Nat.cast_nonneg _)
  exact_mod_cast hcast

/-- What lies between two numbers of one rounding has that rounding too. -/
theorem roundQuanta_of_between (hp : 0 ≤ p) (hpq : p ≤ q) (hqr : q ≤ r) (hn : roundQuanta p = n)
    (hn' : roundQuanta r = n) : roundQuanta q = n :=
  le_antisymm (hn' ▸ roundQuanta_le_roundQuanta (hp.trans hpq) hqr)
    (hn ▸ roundQuanta_le_roundQuanta hp hpq)

theorem roundQuanta_of_near {w : ℚ} (hq : 0 ≤ q) (hn : Representable n) (hlow : n ≤ q + w)
    (hhigh : q ≤ n + w) (hw : 2 ^ 54 * w < n) : roundQuanta q = n := by
  have hnum := natCast_toNat_num hq
  have hden : (0 : ℚ) < q.den := by exact_mod_cast q.den_pos
  -- The deviation, in parts of the denominator.
  obtain ⟨v, hv⟩ : ∃ v, v = (n * q.den - q.num.toNat) + (q.num.toNat - n * q.den) := ⟨_, rfl⟩
  have hvw : (v : ℚ) ≤ w * q.den := by
    rcases le_total q.num.toNat (n * q.den) with hle | hle
    · rw [hv, Nat.sub_eq_zero_of_le hle, add_zero, Nat.cast_sub hle, hnum]
      push_cast
      nlinarith
    · rw [hv, Nat.sub_eq_zero_of_le hle, zero_add, Nat.cast_sub hle, hnum]
      push_cast
      nlinarith
  refine nearestQuanta_eq_of_near (w := v) q.den_pos hn (by omega) (by omega) ?_
  have hcast : (2 ^ 54 * v : ℚ) < n * q.den := by
    calc (2 ^ 54 * v : ℚ) ≤ 2 ^ 54 * (w * q.den) := by linarith
      _ = 2 ^ 54 * w * q.den := by ring
      _ < n * q.den := mul_lt_mul_of_pos_right hw hden
  exact_mod_cast hcast

end Binary64

end Reckon
