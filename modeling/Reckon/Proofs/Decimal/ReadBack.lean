import Reckon.Decimal.Shortest

/-!
# Decimals that read back

Rounding sees a decimal only through its value: a factor of ten may stand in the coefficient or in
the exponent (`Binary64.ofDecimal_mul_ten`). Trailing zeros can therefore be dropped, and the
decimal that `Decimal.shortest` finds rounds to the double it was found for
(`Decimal.readsAs_shortest`). A hit of its search does so by the test of the search; without a hit
the exact value of the double stands in, and a double is its own rounding.
-/

namespace Reckon

namespace Binary64

/-! ### Rounding sees only the value -/

private theorem roundDiv_mul_right {k : Nat} (hk : 0 < k) (num den : Nat) :
    roundDiv (num * k) (den * k) = roundDiv num den := by
  have hdiv : num * k / (den * k) = num / den := Nat.mul_div_mul_right num den hk
  have hmod : num * k % (den * k) = num % den * k := Nat.mul_mod_mul_right k num den
  have hlt : den * k < 2 * (num % den * k) ↔ den < 2 * (num % den) := by
    rw [← Nat.mul_assoc]
    exact Nat.mul_lt_mul_right hk
  have heq : 2 * (num % den * k) = den * k ↔ 2 * (num % den) = den := by
    rw [← Nat.mul_assoc]
    exact Nat.mul_left_inj (Nat.ne_of_gt hk)
  simp only [roundDiv, hdiv, hmod, hlt, Bool.or_eq_true, decide_eq_true_eq, Bool.and_eq_true,
    beq_iff_eq, heq]

private theorem nearest_mul_right {k : Nat} (hk : 0 < k) (negative : Bool) (num den : Nat) :
    nearest negative (num * k) (den * k) = nearest negative num den := by
  have hquanta : nearestQuanta (num * k) (den * k) = nearestQuanta num den := by
    simp only [nearestQuanta]
    rw [Nat.mul_div_mul_right num den hk, Nat.mul_right_comm, roundDiv_mul_right hk]
  simp only [nearest, hquanta]

/-- A fraction may be expanded before it is rounded. -/
theorem ofRatio_mul_right {k : Nat} (hk : 0 < k) (negative : Bool) (num den : Nat) :
    ofRatio negative (num * k) (den * k) = ofRatio negative num den := by
  rw [ofRatio, Nat.mul_right_comm, nearest_mul_right hk, ofRatio]

theorem ofDecimal_natCast (negative : Bool) (coefficient places : Nat) :
    ofDecimal negative coefficient (places : Int) =
      ofRatio negative (coefficient * tenPow places) 1 := by
  simp [ofDecimal]

theorem ofDecimal_neg (negative : Bool) (coefficient places : Nat) :
    ofDecimal negative coefficient (-(places : Int)) =
      ofRatio negative coefficient (tenPow places) := by
  cases places with
  | zero => simp [ofDecimal, tenPow]
  | succ places =>
    have hneg : ¬(0 ≤ -((places + 1 : Nat) : Int)) := by omega
    rw [ofDecimal, if_neg hneg, Int.neg_neg, Int.toNat_natCast]

/-- **Rounding sees only the value.** A factor of ten may move from the coefficient into the
exponent. -/
theorem ofDecimal_mul_ten (negative : Bool) (coefficient : Nat) (exponent : Int) :
    ofDecimal negative (coefficient * 10) exponent =
      ofDecimal negative coefficient (exponent + 1) := by
  rcases Int.lt_or_le exponent 0 with hneg | hpos
  · obtain ⟨places, rfl⟩ : ∃ k : Nat, exponent = -((k + 1 : Nat) : Int) :=
      ⟨(-exponent - 1).toNat, by omega⟩
    have hexp : -((places + 1 : Nat) : Int) + 1 = -(places : Int) := by omega
    rw [hexp, ofDecimal_neg, ofDecimal_neg]
    exact ofRatio_mul_right (by decide) negative coefficient (tenPow places)
  · obtain ⟨places, rfl⟩ := Int.eq_ofNat_of_zero_le hpos
    have hpow : 10 * tenPow places = tenPow (places + 1) := Nat.pow_succ'.symm
    rw [← Int.natCast_succ, ofDecimal_natCast, ofDecimal_natCast, Nat.mul_assoc, hpow]

/-- Zeros may move from the exponent into the coefficient. -/
theorem ofDecimal_mul_tenPow (negative : Bool) (coefficient places : Nat) :
    ofDecimal negative (coefficient * tenPow places) 0 =
      ofDecimal negative coefficient (places : Int) := by
  rw [ofDecimal_natCast]
  exact (ofDecimal_natCast negative _ 0).trans (by simp [tenPow])

end Binary64

namespace Decimal

/-! ### The shortest digits read back -/

private theorem ofDecimal_trimZeros (negative : Bool) (coefficient : Nat) (exponent : Int) :
    Binary64.ofDecimal negative (trimZeros coefficient exponent).coefficient
        (trimZeros coefficient exponent).exponent =
      Binary64.ofDecimal negative coefficient exponent := by
  fun_induction trimZeros coefficient exponent with
  | case1 coefficient exponent h ih =>
    have hten : coefficient / 10 * 10 = coefficient := by omega
    rw [ih, ← Binary64.ofDecimal_mul_ten, hten]
  | case2 coefficient exponent h => rfl

variable {n : Nat} {h : Representable n}

theorem readsAs_iff {d : Decimal} :
    readsAs n h d ↔ Binary64.ofDecimal false d.coefficient d.exponent = .finite false n h := by
  simp [readsAs]

private theorem twoPow_dvd_tenPow (k : Nat) : twoPow k ∣ tenPow k :=
  ⟨Nat.pow 5 k, (Nat.mul_pow 2 5 k).symm ▸ rfl⟩

/-- The exact value of a double rounds to it. -/
theorem readsAs_exact : readsAs n h (exact n) := by
  have hdvd : quantaPerOne ∣ n * tenPow 1074 :=
    Nat.dvd_trans (twoPow_dvd_tenPow 1074) (Nat.dvd_mul_left _ _)
  have hround : Binary64.ofDecimal false (n * tenPow 1074 / quantaPerOne) (-(1074 : Nat)) =
      .finite false n h := by
    rw [Binary64.ofDecimal_neg, Binary64.ofRatio, Nat.div_mul_cancel hdvd]
    exact Binary64.nearest_mul_left false h (tenPow_pos 1074)
  exact readsAs_iff.mpr hround

/-- **The shortest digits read back.** -/
theorem readsAs_shortest : readsAs n h (shortest n h) := by
  let hit (i : Nat) := (neighbours n (wholePlaces n - 1 - i)).find? (readsAs n h)
  have hread : readsAs n h (((List.range 17).findSome? hit).getD (exact n)) := by
    -- No appeal to seventeen digits being enough: without a hit the answer is exact.
    cases hsearch : (List.range 17).findSome? hit with
    | none => exact readsAs_exact
    | some d =>
      obtain ⟨i, -, hi⟩ := List.exists_of_findSome?_eq_some hsearch
      exact List.find?_some hi
  rw [readsAs_iff] at hread ⊢
  rw [shortest, trimmed, ofDecimal_trimZeros]
  exact hread

end Decimal

end Reckon
