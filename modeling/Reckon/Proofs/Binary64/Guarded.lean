import Reckon.Binary64.Arith

/-!
# Operations that the platform refuses

The platform refuses quotients by zero, remainders of infinities and by zero, and powers that are
poles, too great or no numbers. The operations of the language have a number in all these cases:
quotients and remainders because they keep such operands from the platform, and powers because they
answer every refusal (`Binary64.exists_div`, `Binary64.exists_rem`, `Binary64.exists_pow`).

A guard is enough if it covers every refusal, and so the refusals come first.
-/

namespace Reckon

namespace Binary64

variable {x y : Binary64} {fault : ArithmeticFault}

/-! ### Refusals -/

namespace Platform

/-- A quotient is refused exactly if the divisor is a zero. -/
theorem div_eq_error_iff : div x y = .error fault ↔ y.isZero ∧ fault = .zeroDivisor := by
  unfold div
  split
  next hzero => simpa [hzero] using eq_comm
  next hzero => split <;> simp [hzero]

/-- A remainder is refused exactly if the dividend is infinite or the divisor a zero, and neither of
the two is NaN. -/
theorem fmod_eq_error_iff :
    fmod x y = .error fault ↔
      (x.isFinite = false ∨ y.isZero) ∧ x.isNaN = false ∧ y.isNaN = false ∧ fault = .domain := by
  cases x with
  | nan => simp [fmod, isNaN]
  | inf s =>
    cases y with
    | nan => simp [fmod, isNaN]
    | inf t => simpa [fmod, isFinite, isNaN] using eq_comm
    | finite t b hb => simpa [fmod, isFinite, isNaN] using eq_comm
  | finite s a ha =>
    cases y with
    | nan => simp [fmod, isNaN]
    | inf t => simp [fmod, isFinite, isZero]
    | finite t b hb =>
      by_cases hzero : b = 0
      · simpa [fmod, isFinite, isZero, isNaN, hzero] using eq_comm
      · simp [fmod, isFinite, isZero, hzero]

/-- Powers are not refused as quotients. -/
theorem pow_ne_zeroDivisor (x y : Binary64) : pow x y ≠ .error .zeroDivisor := by
  unfold pow
  dsimp only
  repeat' split
  all_goals simp

end Platform

/-! ### Guards and answers -/

/-- **Quotients.** The divisors that the platform would refuse do not get there. -/
theorem exists_div (x y : Binary64) : ∃ z, x.div y = .ok z := by
  unfold div
  split
  · split <;> exact ⟨_, rfl⟩
  next hzero =>
    rcases hdiv : Platform.div x y with fault | z
    · exact absurd (Platform.div_eq_error_iff.mp hdiv).1 hzero
    · exact ⟨z, rfl⟩

/-- **Remainders.** -/
theorem exists_rem (x y : Binary64) : ∃ z, x.rem y = .ok z := by
  unfold rem
  split
  · exact ⟨_, rfl⟩
  next hguard =>
    rcases hfmod : Platform.fmod x y with fault | z
    · refine absurd ?_ hguard
      rcases (Platform.fmod_eq_error_iff.mp hfmod).1 with hinfinite | hzero
      · simp [hinfinite]
      · simp [hzero]
    · exact ⟨z, rfl⟩

/-- **Powers.** Every refusal has an answer. -/
theorem exists_pow (x y : Binary64) : ∃ z, x.pow y = .ok z := by
  unfold pow
  rcases hpow : Platform.pow x y with fault | z
  · cases fault with
    | zeroDivisor => exact absurd hpow (Platform.pow_ne_zeroDivisor x y)
    | domain =>
      dsimp only
      repeat' split
      all_goals exact ⟨_, rfl⟩
    | range =>
      dsimp only
      split <;> exact ⟨_, rfl⟩
  · exact ⟨z, rfl⟩

end Binary64

end Reckon
