import Mathlib.Algebra.Order.Field.Power
import Reckon.Proofs.Binary64.Rounding
import Reckon.Proofs.Decimal.ReadBack

/-!
# The fewest digits that read back

`Decimal.shortest` has no more digits than any other decimal that rounds to the same double
(`Decimal.length_digits_shortest_le`).

A decimal rounds to what its `Decimal.value` rounds to, so the decimals that read back as a double
are those with a value in an interval around it. If a grid of decimals has a point there, then one
of the two neighbours of the double on that grid is there (`Decimal.exists_mem_neighbours`). On the
grid of seventeen digits the nearer neighbour always is (`Decimal.exists_mem_neighbours_seventeen`):
it is closer than half of the least gap between doubles, as `2⁵³ < 10¹⁶`.

A decimal of few digits need not lie on the grid of the double with that many digits: it may be
finer, if it is less than the leading power of ten of the double. But then that power lies between
the two, and one digit is enough.
-/

namespace Reckon

namespace Decimal

open Binary64

/-! ### Values -/

/-- The number that a decimal is. -/
def value (d : Decimal) : ℚ := d.coefficient * 10 ^ d.exponent

private theorem natCast_tenPow (k : Nat) : (tenPow k : ℚ) = 10 ^ k := by
  rw [tenPow]
  exact_mod_cast rfl

private theorem ten_zpow_pos (e : ℤ) : (0 : ℚ) < 10 ^ e := zpow_pos (by norm_num) e

private theorem ten_zpow_split {a b : ℤ} {k : Nat} (hab : a = b + k) :
    (10 : ℚ) ^ a = 10 ^ k * 10 ^ b := by
  rw [hab, zpow_add₀ (by norm_num), zpow_natCast, mul_comm]

theorem value_nonneg (d : Decimal) : 0 ≤ d.value :=
  mul_nonneg (Nat.cast_nonneg _) (ten_zpow_pos _).le

private theorem value_mul_quantaPerOne_nonneg (d : Decimal) : 0 ≤ d.value * quantaPerOne :=
  mul_nonneg d.value_nonneg (Nat.cast_nonneg _)

variable {n : Nat} {h : Representable n}

/-- **Values.** A decimal rounds to a double if its value does. -/
theorem ofDecimal_eq_finite_iff {negative : Bool} {d : Decimal} :
    ofDecimal negative d.coefficient d.exponent = .finite negative n h ↔
      roundQuanta (d.value * quantaPerOne) = n := by
  rcases Int.lt_or_le d.exponent 0 with hneg | hpos
  · obtain ⟨places, hplaces⟩ : ∃ k : Nat, d.exponent = -(k : ℤ) := ⟨(-d.exponent).toNat, by omega⟩
    have hvalue : d.value * quantaPerOne =
        ((d.coefficient * quantaPerOne : Nat) : ℚ) / (tenPow places : Nat) := by
      rw [value, hplaces, zpow_neg, zpow_natCast, natCast_tenPow, Nat.cast_mul]
      ring
    rw [hplaces, ofDecimal_neg, ofRatio, nearest_eq_finite_iff, hvalue,
      roundQuanta_div _ (tenPow_pos places)]
  · obtain ⟨places, hplaces⟩ := Int.eq_ofNat_of_zero_le hpos
    have hvalue : d.value * quantaPerOne =
        ((d.coefficient * tenPow places * quantaPerOne : Nat) : ℚ) / (1 : Nat) := by
      rw [value, hplaces, zpow_natCast, Nat.cast_mul, Nat.cast_mul, natCast_tenPow, Nat.cast_one,
        div_one]
    rw [hplaces, ofDecimal_natCast, ofRatio, nearest_eq_finite_iff, hvalue,
      roundQuanta_div _ Nat.one_pos]

theorem readsAs_iff_roundQuanta {d : Decimal} :
    readsAs n h d ↔ roundQuanta (d.value * quantaPerOne) = n :=
  readsAs_iff.trans ofDecimal_eq_finite_iff

theorem readsAs_congr {c d : Decimal} (hvalue : c.value = d.value) :
    readsAs n h c ↔ readsAs n h d := by
  rw [readsAs_iff_roundQuanta, readsAs_iff_roundQuanta, hvalue]

/-- A decimal between a double and one that reads back as it, reads back as it too. -/
theorem readsAs_of_le_of_le {c d : Decimal} (hc : readsAs n h c) (hle : c.value ≤ d.value)
    (hn : d.value * quantaPerOne ≤ n) : readsAs n h d := by
  rw [readsAs_iff_roundQuanta] at hc ⊢
  exact roundQuanta_of_between c.value_mul_quantaPerOne_nonneg
    (mul_le_mul_of_nonneg_right hle (Nat.cast_nonneg _)) hn hc (roundQuanta_natCast h)

private theorem readsAs_of_ge_of_ge {c d : Decimal} (hc : readsAs n h c) (hle : d.value ≤ c.value)
    (hn : n ≤ d.value * quantaPerOne) : readsAs n h d := by
  rw [readsAs_iff_roundQuanta] at hc ⊢
  exact roundQuanta_of_between (Nat.cast_nonneg n) hn
    (mul_le_mul_of_nonneg_right hle (Nat.cast_nonneg _)) (roundQuanta_natCast h) hc

/-! ### Neighbours -/

private theorem value_mk_le_value_mk {a b : Nat} (e : ℤ) (hab : a ≤ b) :
    (⟨a, e⟩ : Decimal).value ≤ (⟨b, e⟩ : Decimal).value :=
  mul_le_mul_of_nonneg_right (by exact_mod_cast hab) (ten_zpow_pos e).le

private theorem scaled_spec (n : Nat) (places : ℤ) : 0 < (scaled n places).2 ∧
    ((scaled n places).1 : ℚ) / (scaled n places).2 = n / (10 ^ places * quantaPerOne) := by
  rcases Int.lt_or_le places 0 with hneg | hpos
  · obtain ⟨k, rfl⟩ : ∃ k : Nat, places = -(k : ℤ) := ⟨(-places).toNat, by omega⟩
    rw [scaled, if_neg (by omega), Int.neg_neg, Int.toNat_natCast]
    dsimp only
    refine ⟨quantaPerOne_pos, ?_⟩
    rw [Nat.cast_mul, natCast_tenPow, zpow_neg, zpow_natCast, mul_comm _⁻¹, ← div_eq_mul_inv,
      div_div_eq_mul_div]
  · obtain ⟨k, rfl⟩ := Int.eq_ofNat_of_zero_le hpos
    rw [scaled, if_pos hpos, Int.toNat_natCast]
    dsimp only
    refine ⟨Nat.mul_pos quantaPerOne_pos (tenPow_pos k), ?_⟩
    rw [Nat.cast_mul, natCast_tenPow, zpow_natCast, mul_comm (quantaPerOne : ℚ)]

/-- The neighbours of a double on a grid are the two points of it that have the double between
them. -/
private theorem exists_neighbours (n : Nat) (places : ℤ) :
    ∃ low : Nat, (∀ d, d ∈ neighbours n places ↔ d = ⟨low, places⟩ ∨ d = ⟨low + 1, places⟩) ∧
      (⟨low, places⟩ : Decimal).value * quantaPerOne ≤ n ∧
      n < (⟨low + 1, places⟩ : Decimal).value * quantaPerOne := by
  obtain ⟨hden, hratio⟩ := scaled_spec n places
  refine ⟨(scaled n places).1 / (scaled n places).2, fun d => ?_, ?_⟩
  · simp only [neighbours]
    split
    · simp
    · simp [or_comm]
  · have hfloor := Nat.div_mul_le_self (scaled n places).1 (scaled n places).2
    have hceil := Nat.lt_div_mul_add (a := (scaled n places).1) hden
    have hscale : (0 : ℚ) < 10 ^ places * quantaPerOne :=
      mul_pos (ten_zpow_pos places) (by exact_mod_cast quantaPerOne_pos)
    generalize (scaled n places).1 / (scaled n places).2 = low at hfloor hceil ⊢
    generalize (scaled n places).1 = num at *
    generalize (scaled n places).2 = den at *
    have hden' : (0 : ℚ) < den := by exact_mod_cast hden
    rw [value, value, mul_assoc, mul_assoc, ← le_div_iff₀ hscale, ← div_lt_iff₀ hscale, ← hratio,
      le_div_iff₀ hden', div_lt_iff₀ hden']
    constructor
    · exact_mod_cast hfloor
    · push_cast
      have : (num : ℚ) < low * den + den := by exact_mod_cast hceil
      linarith

/-- If any point of a grid reads back as a double, one of its two neighbours does. -/
theorem exists_mem_neighbours {c : Nat} {places : ℤ} (hc : readsAs n h ⟨c, places⟩) :
    ∃ d ∈ neighbours n places, readsAs n h d := by
  obtain ⟨low, hmem, hlow, hhigh⟩ := exists_neighbours n places
  rcases Nat.lt_or_ge low c with hlt | hge
  · exact ⟨_, (hmem _).mpr (.inr rfl),
      readsAs_of_ge_of_ge hc (value_mk_le_value_mk places hlt) hhigh.le⟩
  · exact ⟨_, (hmem _).mpr (.inl rfl),
      readsAs_of_le_of_le hc (value_mk_le_value_mk places hge) hlow⟩

/-! ### The leading digit -/

private theorem lt_ten_pow_length_toDigits (k : Nat) : k < 10 ^ (Nat.toDigits 10 k).length :=
  (Nat.length_toDigits_le_iff (by decide) Nat.length_toDigits_pos).mp le_rfl

private theorem ten_pow_length_toDigits_le {k : Nat} (hk : 0 < k) :
    10 ^ ((Nat.toDigits 10 k).length - 1) ≤ k := by
  rcases Nat.eq_zero_or_pos ((Nat.toDigits 10 k).length - 1) with hone | hmore
  · rw [hone, pow_zero]
    exact hk
  · by_contra hlt
    have hle := (Nat.length_toDigits_le_iff (by decide) hmore).mpr (not_le.mp hlt)
    omega

private theorem value_le (d : Decimal) : d.value ≤ 10 ^ (d.exponent + d.digits.length) := by
  rw [ten_zpow_split rfl, value]
  refine mul_le_mul_of_nonneg_right ?_ (ten_zpow_pos _).le
  exact_mod_cast (lt_ten_pow_length_toDigits d.coefficient).le

/-- `wholePlaces` counts the places up to the leading digit. -/
private theorem wholePlaces_spec (hn : 0 < n) :
    10 ^ (wholePlaces n - 1) * quantaPerOne ≤ (n : ℚ) ∧
      n < 10 ^ wholePlaces n * (quantaPerOne : ℚ) := by
  unfold wholePlaces
  have hquanta := quantaPerOne_pos
  generalize quantaPerOne = q at hquanta ⊢
  split
  next hle =>
    -- From one on, the places are the digits of the integer part.
    have hquotient : 0 < n / q := Nat.div_pos hle hquanta
    have hlow := ten_pow_length_toDigits_le hquotient
    have hhigh := lt_ten_pow_length_toDigits (n / q)
    have hplaces : ((Nat.toDigits 10 (n / q)).length : ℤ) - 1 =
        ((Nat.toDigits 10 (n / q)).length - 1 : Nat) := by
      have := Nat.length_toDigits_pos (b := 10) (n := n / q)
      omega
    rw [hplaces, zpow_natCast, zpow_natCast]
    constructor
    · exact_mod_cast (Nat.mul_le_mul_right q hlow).trans (Nat.div_mul_le_self n q)
    · exact_mod_cast (Nat.lt_mul_of_div_lt hhigh hquanta)
  next hlt =>
    -- Below one, the zeros behind the point are the digits of the inverse.
    have hquotient : 0 < (q - 1) / n := Nat.div_pos (by omega) hn
    have hlow := ten_pow_length_toDigits_le hquotient
    have hhigh := Nat.lt_mul_of_div_lt (lt_ten_pow_length_toDigits ((q - 1) / n)) hn
    have hlength := Nat.length_toDigits_pos (b := 10) (n := (q - 1) / n)
    generalize (Nat.toDigits 10 ((q - 1) / n)).length = size at hlow hhigh hlength ⊢
    have hplaces : 1 - (size : ℤ) = -((size - 1 : Nat) : ℤ) := by omega
    have hplaces' : 1 - (size : ℤ) - 1 = -(size : ℤ) := by omega
    rw [hplaces', hplaces, zpow_neg, zpow_neg, zpow_natCast, zpow_natCast,
      inv_mul_le_iff₀ (by positivity), lt_inv_mul_iff₀ (by positivity)]
    constructor
    · have : q ≤ 10 ^ size * n := by omega
      exact_mod_cast this
    · have hmul := (Nat.mul_le_mul_right n hlow).trans (Nat.div_mul_le_self (q - 1) n)
      have : 10 ^ (size - 1) * n < q := by omega
      exact_mod_cast this

/-! ### Seventeen digits -/

/-- **Seventeen digits are enough.** The nearer neighbour on the grid of seventeen digits reads
back. -/
theorem exists_mem_neighbours_seventeen (hn : 0 < n) :
    ∃ d ∈ neighbours n (wholePlaces n - 1 - (16 : Nat)), readsAs n h d := by
  obtain ⟨hlead, -⟩ := wholePlaces_spec hn
  rw [ten_zpow_split (sub_add_cancel _ ((16 : Nat) : ℤ)).symm] at hlead
  obtain ⟨low, hmem, hlow, hhigh⟩ := exists_neighbours n (wholePlaces n - 1 - (16 : Nat))
  generalize wholePlaces n - 1 - (16 : Nat) = places at *
  obtain ⟨step, hstep⟩ : ∃ step : ℚ, 10 ^ places * quantaPerOne = step := ⟨_, rfl⟩
  have hpos : 0 < step := by
    rw [← hstep]
    exact mul_pos (ten_zpow_pos places) (by exact_mod_cast quantaPerOne_pos)
  have hnext : (⟨low + 1, places⟩ : Decimal).value * quantaPerOne =
      (⟨low, places⟩ : Decimal).value * quantaPerOne + step := by
    rw [value, value, Nat.cast_succ, ← hstep]
    ring
  rw [mul_assoc, hstep] at hlead
  rw [hnext] at hhigh
  have hnear {d : Decimal} (hbelow : n ≤ d.value * quantaPerOne + step / 2)
      (habove : d.value * quantaPerOne ≤ n + step / 2) : readsAs n h d := by
    rw [readsAs_iff_roundQuanta]
    exact roundQuanta_of_near d.value_mul_quantaPerOne_nonneg h hbelow habove (by linarith)
  rcases le_total ((n : ℚ) - (⟨low, places⟩ : Decimal).value * quantaPerOne) (step / 2)
    with hhalf | hhalf
  · exact ⟨_, (hmem _).mpr (.inl rfl), hnear (by linarith) (by linarith)⟩
  · exact ⟨_, (hmem _).mpr (.inr rfl), hnear (by linarith) (by linarith)⟩

/-! ### The search -/

private theorem exists_first_of_findSome?_range {α : Type} {f : Nat → Option α} {k : Nat} {a : α}
    (hfind : (List.range k).findSome? f = some a) : ∃ i, f i = some a ∧ ∀ j < i, f j = none := by
  obtain ⟨front, i, back, hsplit, hi, hfront⟩ := List.findSome?_eq_some_iff.mp hfind
  refine ⟨i, hi, fun j hj => hfront j ?_⟩
  have hsorted := List.pairwise_lt_range (n := k)
  have hmem : j ∈ List.range k := by
    have : i ∈ List.range k := by simp [hsplit]
    rw [List.mem_range] at this ⊢
    omega
  rw [hsplit] at hsorted hmem
  -- What comes after the hit is greater.
  have hback := (List.pairwise_cons.mp (List.pairwise_append.mp hsorted).2.1).1
  rcases List.mem_append.mp hmem with hmem | hmem
  · exact hmem
  · rcases List.mem_cons.mp hmem with rfl | hmem
    · omega
    · have := hback j hmem
      omega

/-- The search stops at the first grid that has a point which reads back. -/
theorem exists_shortest (hn : 0 < n) :
    ∃ (i : Nat) (d : Decimal), shortest n h = d.trimmed ∧
      d ∈ neighbours n (wholePlaces n - 1 - i) ∧
      ∀ j < i, ∀ c, ¬readsAs n h ⟨c, wholePlaces n - 1 - j⟩ := by
  let hit (i : Nat) := (neighbours n (wholePlaces n - 1 - i)).find? (readsAs n h)
  obtain ⟨d, hsearch⟩ : ∃ d, (List.range 17).findSome? hit = some d := by
    refine Option.isSome_iff_exists.mp (List.findSome?_isSome_iff.mpr ⟨16, by simp, ?_⟩)
    exact List.find?_isSome.mpr (exists_mem_neighbours_seventeen hn)
  obtain ⟨i, hi, hfirst⟩ := exists_first_of_findSome?_range hsearch
  refine ⟨i, d, ?_, List.mem_of_find?_eq_some hi, fun j hj c hc => ?_⟩
  · have : shortest n h = (((List.range 17).findSome? hit).getD (exact n)).trimmed := rfl
    rw [this, hsearch, Option.getD_some]
  · obtain ⟨e, he, hread⟩ := exists_mem_neighbours hc
    exact List.find?_eq_none.mp (hfirst j hj) e he hread

/-! ### Counting digits -/

private theorem coefficient_trimZeros_le (coefficient : Nat) (exponent : ℤ) :
    (trimZeros coefficient exponent).coefficient ≤ coefficient := by
  fun_induction trimZeros coefficient exponent with
  | case1 coefficient exponent hzero ih => omega
  | case2 coefficient exponent hzero => exact le_rfl

/-- A neighbour has the digits of its grid, or is the next power of ten, and then it is trimmed. -/
private theorem length_digits_trimmed_le {d : Decimal} {i : Nat} (hn : 0 < n)
    (hd : d ∈ neighbours n (wholePlaces n - 1 - i)) : d.trimmed.digits.length ≤ i + 1 := by
  obtain ⟨low, hmem, hlow, -⟩ := exists_neighbours n (wholePlaces n - 1 - i)
  have hlt : low < 10 ^ (i + 1) := by
    have hplaces : wholePlaces n = wholePlaces n - 1 - i + (i + 1 : Nat) := by omega
    have hvalue := hlow.trans_lt (wholePlaces_spec hn).2
    rw [ten_zpow_split hplaces, value] at hvalue
    have hquanta : (0 : ℚ) < quantaPerOne := by exact_mod_cast quantaPerOne_pos
    have := lt_of_mul_lt_mul_right (lt_of_mul_lt_mul_right hvalue hquanta.le) (ten_zpow_pos _).le
    exact_mod_cast this
  have hle : d.coefficient ≤ 10 ^ (i + 1) := by
    rcases (hmem d).mp hd with rfl | rfl
    · exact hlt.le
    · exact hlt
  rw [digits, Nat.length_toDigits_le_iff (by decide) i.succ_pos, trimmed]
  rcases hle.lt_or_eq with hlt | heq
  · exact (coefficient_trimZeros_le _ _).trans_lt hlt
  · have hzero : d.coefficient ≠ 0 ∧ d.coefficient % 10 = 0 := by
      rw [heq, pow_succ]
      exact ⟨by positivity, Nat.mul_mod_left _ _⟩
    rw [trimZeros, if_pos hzero]
    have := coefficient_trimZeros_le (d.coefficient / 10) (d.exponent + 1)
    omega

/-- **The fewest digits.** No decimal that rounds to a double has fewer digits than `shortest`. -/
theorem length_digits_shortest_le (hn : 0 < n) {d : Decimal} (hd : readsAs n h d) :
    (shortest n h).digits.length ≤ d.digits.length := by
  obtain ⟨i, e, hshortest, he, hfirst⟩ := exists_shortest (h := h) hn
  rw [hshortest]
  refine (length_digits_trimmed_le hn he).trans ?_
  by_contra hfew
  have hsize : 0 < d.digits.length := Nat.length_toDigits_pos
  rcases le_or_gt (wholePlaces n - d.digits.length) d.exponent with hcoarse | hfine
  · -- The decimal lies on the grid of its own number of digits.
    obtain ⟨k, hk⟩ := Int.le.dest hcoarse
    refine hfirst (d.digits.length - 1) (by omega) (d.coefficient * 10 ^ k) ?_
    have hplaces : wholePlaces n - 1 - (d.digits.length - 1 : Nat) =
        wholePlaces n - d.digits.length := by omega
    rw [hplaces]
    refine (readsAs_congr ?_).mp hd
    rw [value, value, ten_zpow_split hk.symm, Nat.cast_mul, Nat.cast_pow, mul_assoc]
    rfl
  · -- The decimal is less than the leading power of ten.
    have hlead : (⟨1, wholePlaces n - 1 - (0 : Nat)⟩ : Decimal).value =
        10 ^ (wholePlaces n - 1) := by
      rw [value, Nat.cast_one, one_mul, Nat.cast_zero, sub_zero]
    refine hfirst 0 (by omega) 1 (readsAs_of_le_of_le hd ?_ ?_)
    · rw [hlead]
      exact d.value_le.trans (zpow_le_zpow_right₀ (by norm_num) (by omega))
    · rw [hlead]
      exact (wholePlaces_spec hn).1

/-! ### Doubles with a fraction -/

private theorem coefficient_trimZeros_mod_ten {coefficient : Nat} {exponent : ℤ}
    (hne : (trimZeros coefficient exponent).coefficient ≠ 0) :
    (trimZeros coefficient exponent).coefficient % 10 ≠ 0 := by
  fun_induction trimZeros coefficient exponent with
  | case1 coefficient exponent hzero ih => exact ih hne
  | case2 coefficient exponent hzero => exact fun hten => hzero ⟨hne, hten⟩

private theorem coefficient_ne_zero (hn : 0 < n) {d : Decimal} (hd : readsAs n h d) :
    d.coefficient ≠ 0 := by
  intro hzero
  rw [readsAs_iff_roundQuanta, value, hzero, Nat.cast_zero, zero_mul, zero_mul] at hd
  have hround := roundQuanta_natCast representable_zero
  rw [Nat.cast_zero] at hround
  omega

/-- The shortest digits do not end in zero. -/
theorem coefficient_shortest_mod_ten (hn : 0 < n) : (shortest n h).coefficient % 10 ≠ 0 :=
  coefficient_trimZeros_mod_ten (coefficient_ne_zero hn readsAs_shortest)

/-- The shortest digits of a double with a fraction have one, as whole numbers round to whole
numbers. -/
theorem exponent_shortest_neg (hn : n % quantaPerOne ≠ 0) : (shortest n h).exponent < 0 := by
  by_contra hpos
  obtain ⟨places, hplaces⟩ := Int.eq_ofNat_of_zero_le (not_lt.mp hpos)
  have hread := readsAs_iff.mp (readsAs_shortest (h := h))
  rw [hplaces, ofDecimal_natCast, ofRatio, nearest_eq_finite_iff] at hread
  have hdvd := quantaPerOne_dvd_nearestQuanta ((shortest n h).coefficient * tenPow places)
  rw [hread] at hdvd
  exact hn (Nat.mod_eq_zero_of_dvd hdvd)

end Decimal

end Reckon
