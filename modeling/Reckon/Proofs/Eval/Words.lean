import Reckon.Eval.Operators
import Reckon.Proofs.Binary64.Whole

/-!
# Numbers as words

A bitwise operator turns its operands into 64-bit words, acts on the words and turns the result back
into a number. Two of these three steps can lose something: a number can have a fractional part or
be out of range, and a word of more than 53 bits may be no double.

* The first step is truncation toward zero, and saturation at the ends of the range. Repeating it
  loses nothing more, so `x | 0` is the same as `(x | 0) | 0` (`Value.toInt64_saturates`).
* On whole numbers of at most 53 bits nothing is lost. The operators are there those on integers
  with infinitely many bits, and a shift to the left can be taken back (`Value.bitwise_exact`). -/

namespace Reckon

namespace Value

open Binary64 Int64Range

/-- The operator between the numbers `x` and `y` gives the number `z`. -/
def Computes (op : Symbol) (x y z : Binary64) : Prop :=
  ∃ apply, binaryOperator? op = some apply ∧ apply (number x) (number y) = .ok (number z)

variable {op : Symbol} {act : ℤ → ℤ → ℤ} {x y : Binary64} {a b : ℤ}

private theorem computes_onWords (hop : binaryOperator? op = some (onWords op act))
    (x y : Binary64) : Computes op x y (ofInt (act x.toInt64 y.toInt64)) :=
  ⟨_, hop, rfl⟩

/-! ### Truncation by an operator -/

/-- Zero has no bits to add. -/
private theorem computes_pipe_zero (x : Binary64) : Computes .pipe x zero (ofInt x.toInt64) := by
  have hop : binaryOperator? .pipe = some (onWords .pipe (bitwise Nat.lor)) := rfl
  have hzero : zero.toInt64 = 0 := by decide +kernel
  have hword : bitwise Nat.lor x.toInt64 0 = x.toInt64 :=
    calc bitwise Nat.lor x.toInt64 0
        = wrap (bits x.toInt64) := congrArg (fun n : ℕ => wrap n) (Nat.or_zero (bits x.toInt64))
      _ = wrap x.toInt64 := wrap_congr (bits_modEq _)
      _ = x.toInt64 := wrap_of_inRange (inRange_toInt64 x)
  have hpipe := computes_onWords hop x zero
  rwa [hzero, hword] at hpipe

/-- **Conversion to words.** A double is converted to its integer part, cut to the range of words;
NaN becomes zero. The order of doubles is kept, and what a double was converted to is converted to
itself, also where it is no double. The operator `|` with a zero does just that. -/
theorem toInt64_saturates :
    nan.toInt64 = 0 ∧
    (∀ negative, (inf negative).toInt64 = if negative then -2 ^ 63 else 2 ^ 63 - 1) ∧
    (∀ x q, toRat? x = some q →
      x.toInt64 = max (-2 ^ 63) (min (2 ^ 63 - 1) (towardZero q))) ∧
    (∀ x y p q, Binary64.toExtended? x = some p → Binary64.toExtended? y = some q → p ≤ q →
      x.toInt64 ≤ y.toInt64) ∧
    (∀ x : Binary64, (ofInt x.toInt64).toInt64 = x.toInt64) ∧
    ∀ x, Computes .pipe x zero (ofInt x.toInt64) ∧
      Computes .pipe (ofInt x.toInt64) zero (ofInt x.toInt64) := by
  refine ⟨rfl, fun _ => rfl, fun x q => toInt64_of_toRat?, fun x y p q => toInt64_le_toInt64,
    toInt64_ofInt_toInt64, fun x => ⟨computes_pipe_zero x, ?_⟩⟩
  have hagain := computes_pipe_zero (ofInt x.toInt64)
  rwa [toInt64_ofInt_toInt64] at hagain

/-- At the first number past the range, and at a negative fraction. -/
theorem toInt64_saturates_ends :
    (ofInt (2 ^ 63)).toRat? = some (2 ^ 63) ∧ (ofInt (2 ^ 63)).toInt64 = 2 ^ 63 - 1 ∧
      (ofRatio true 5 2).toRat? = some (-5 / 2) ∧ (ofRatio true 5 2).toInt64 = -2 := by
  obtain ⟨-, -, hpart, -⟩ := toInt64_saturates
  have hpast : (ofInt (2 ^ 63)).toRat? = some (2 ^ 63) := by decide +kernel
  have hfraction : (ofRatio true 5 2).toRat? = some (-5 / 2) := by decide +kernel
  refine ⟨hpast, (hpart _ _ hpast).trans ?_, hfraction, (hpart _ _ hfraction).trans ?_⟩
  · norm_num [towardZero]
  · norm_num [towardZero]

/-! ### Exact results -/

/-- An operator on words is exact where the operands are words and the result is a double. -/
private theorem exists_computes (hop : binaryOperator? op = some (onWords op act))
    (hx : x.toRat? = some (a : ℚ)) (ha : InRange 63 a) (hy : y.toRat? = some (b : ℚ))
    (hb : InRange 63 b)
    (hdouble : IsDouble (act a b)) :
    ∃ z, Computes op x y z ∧ z.toRat? = some ((act a b : ℤ) : ℚ) := by
  have hcomputes := computes_onWords hop x y
  rw [toInt64_of_whole hx ha, toInt64_of_whole hy hb] at hcomputes
  exact ⟨_, hcomputes, toRat?_ofInt hdouble⟩

private theorem isDouble_of_inRange (h : InRange 53 a) : IsDouble a := by
  refine isDouble_of_natAbs_le ?_
  rw [InRange] at h
  omega

/-- Of 53 bits none is lost by an operator that acts bit by bit. -/
private theorem exists_computes_bitwise {f : Bool → Bool → Bool} (hf : f false false = false)
    (hop : binaryOperator? op = some (onWords op (bitwise (Nat.bitwise f))))
    (hx : x.toRat? = some (a : ℚ)) (ha : InRange 53 a) (hy : y.toRat? = some (b : ℚ))
    (hb : InRange 53 b) :
    ∃ z, Computes op x y z ∧ z.toRat? = some ((Int.bitwise f a b : ℤ) : ℚ) := by
  have ha' : InRange 63 a := ha.mono (by norm_num)
  have hb' : InRange 63 b := hb.mono (by norm_num)
  have hword := bitwise_eq hf ha' hb'
  have hdouble : IsDouble (bitwise (Nat.bitwise f) a b) := by
    rw [hword]
    exact isDouble_of_inRange (ha.bitwise f hb)
  have hexists := exists_computes hop hx ha' hy hb' hdouble
  rwa [hword] at hexists

/-- A product with a power of two that is a word is found by moving left, and undone by moving
right. -/
private theorem exists_computes_shifts {n : ℤ} {c : ℕ} (hx : x.toRat? = some (n : ℚ))
    (hy : y.toRat? = some (c : ℚ)) (hn : n.natAbs ≤ 2 ^ 53) (hc : c < 64)
    (hmoved : InRange 63 (n * 2 ^ c)) :
    ∃ moved back, Computes .shiftLeft x y moved ∧ moved.toRat? = some ((n * 2 ^ c : ℤ) : ℚ) ∧
      Computes .shiftRight moved y back ∧ back.toRat? = some (n : ℚ) := by
  have hword : InRange 63 n := by constructor <;> omega
  have hcount : InRange 63 (c : ℤ) := by constructor <;> omega
  have hcast : y.toRat? = some (((c : ℤ) : ℚ)) := by rw [hy, Int.cast_natCast]
  have hleft : Int64Range.shiftLeft n c = n * 2 ^ c := by
    rw [shiftLeft_of_nonneg n (Int.natCast_nonneg c), Int.toNat_natCast, wrap_of_inRange hmoved]
  have hright : Int64Range.shiftRight (n * 2 ^ c) c = n := by
    rw [shiftRight_of_nonneg hmoved (Int.natCast_nonneg c), Int.toNat_natCast,
      Int.mul_ediv_cancel n (by positivity)]
  have hopLeft : binaryOperator? .shiftLeft =
      some (onWords .shiftLeft Int64Range.shiftLeft) := rfl
  have hopRight : binaryOperator? .shiftRight =
      some (onWords .shiftRight Int64Range.shiftRight) := rfl
  have hdouble : IsDouble (Int64Range.shiftLeft n c) := by
    rw [hleft]
    exact isDouble_mul_pow hn hc.le
  obtain ⟨moved, hcomputes, hvalue⟩ := exists_computes hopLeft hx hword hcast hcount hdouble
  rw [hleft] at hvalue
  have hdouble' : IsDouble (Int64Range.shiftRight (n * 2 ^ c) c) := by
    rw [hright]
    exact isDouble_of_natAbs_le hn
  obtain ⟨back, hcomputes', hvalue'⟩ :=
    exists_computes hopRight hvalue hmoved hcast hcount hdouble'
  rw [hright] at hvalue'
  exact ⟨moved, back, hcomputes, hvalue, hcomputes', hvalue'⟩

/-- What the bitwise operators give on the numbers `x` and `y`, given that these are the integers
`a` and `b`. -/
structure BitwiseExact (x y : Binary64) (a b : ℤ) : Prop where
  and : ∃ z, Computes .ampersand x y z ∧ z.toRat? = some ((Int.land a b : ℤ) : ℚ)
  or : ∃ z, Computes .pipe x y z ∧ z.toRat? = some ((Int.lor a b : ℤ) : ℚ)
  /-- The exclusive or is exact, and a second one takes it back. -/
  xor : ∃ z back, Computes .caret x y z ∧ z.toRat? = some ((Int.xor a b : ℤ) : ℚ) ∧
    Computes .caret z y back ∧ back.toRat? = some (a : ℚ)
  and_mem : InRange 53 (Int.land a b)
  or_mem : InRange 53 (Int.lor a b)
  xor_mem : InRange 53 (Int.xor a b)
  xor_xor : Int.xor (Int.xor a b) b = a
  and_add_or : Int.land a b + Int.lor a b = a + b

private theorem bitwiseExact (hx : x.toRat? = some (a : ℚ)) (ha : InRange 53 a)
    (hy : y.toRat? = some (b : ℚ)) (hb : InRange 53 b) : BitwiseExact x y a b := by
  have hopAnd : binaryOperator? .ampersand =
      some (onWords .ampersand (bitwise (Nat.bitwise and))) := rfl
  have hopOr : binaryOperator? .pipe = some (onWords .pipe (bitwise (Nat.bitwise or))) := rfl
  have hopXor : binaryOperator? .caret =
      some (onWords .caret (bitwise (Nat.bitwise Bool.xor))) := rfl
  have hand := exists_computes_bitwise rfl hopAnd hx ha hy hb
  have hor := exists_computes_bitwise rfl hopOr hx ha hy hb
  obtain ⟨z, hxor, hvalue⟩ := exists_computes_bitwise rfl hopXor hx ha hy hb
  have hmem := ha.bitwise Bool.xor hb
  obtain ⟨back, hback, hvalue'⟩ := exists_computes_bitwise rfl hopXor hvalue hmem hy hb
  simp only [Int.bitwise_and, Int.bitwise_or, Int.bitwise_xor] at hand hor hvalue hvalue' hmem
  rw [xor_xor_cancel] at hvalue'
  exact {
    and := hand
    or := hor
    xor := ⟨z, back, hxor, hvalue, hback, hvalue'⟩
    and_mem := Int.bitwise_and ▸ ha.bitwise and hb
    or_mem := Int.bitwise_or ▸ ha.bitwise or hb
    xor_mem := hmem
    xor_xor := xor_xor_cancel a b
    and_add_or := land_add_lor ha hb }

/-- **Exact bits.** On whole numbers from `-2⁵³` up to `2⁵³` the bitwise operators are those of
integers, with results in the same range. A whole number up to `2⁵³` that is moved left within the
range of words is found again by moving right. -/
theorem bitwise_exact :
    (∀ (x y : Binary64) (a b : ℤ), x.toRat? = some (a : ℚ) → y.toRat? = some (b : ℚ) →
      -2 ^ 53 ≤ a → a < 2 ^ 53 → -2 ^ 53 ≤ b → b < 2 ^ 53 → BitwiseExact x y a b) ∧
    ∀ (x y : Binary64) (n : ℤ) (c : ℕ), x.toRat? = some (n : ℚ) → y.toRat? = some (c : ℚ) →
      n.natAbs ≤ 2 ^ 53 → c < 64 → -2 ^ 63 ≤ n * 2 ^ c → n * 2 ^ c < 2 ^ 63 →
      ∃ moved back, Computes .shiftLeft x y moved ∧ moved.toRat? = some ((n * 2 ^ c : ℤ) : ℚ) ∧
        Computes .shiftRight moved y back ∧ back.toRat? = some (n : ℚ) :=
  ⟨fun _ _ _ _ hx hy ha ha' hb hb' => bitwiseExact hx ⟨ha, ha'⟩ hy ⟨hb, hb'⟩,
    fun _ _ _ _ hx hy hn hc hlow hhigh => exists_computes_shifts hx hy hn hc ⟨hlow, hhigh⟩⟩

/-- At the ends of the safe range, of which the lower one can be moved to the end of the words. -/
theorem bitwise_exact_ends :
    (ofInt (-2 ^ 53)).toRat? = some ((-2 ^ 53 : ℤ) : ℚ) ∧
      (ofInt (2 ^ 53 - 1)).toRat? = some ((2 ^ 53 - 1 : ℤ) : ℚ) ∧
      BitwiseExact (ofInt (-2 ^ 53)) (ofInt (2 ^ 53 - 1)) (-2 ^ 53) (2 ^ 53 - 1) ∧
      (ofInt 10).toRat? = some ((10 : ℕ) : ℚ) ∧
      ∃ moved back, Computes .shiftLeft (ofInt (-2 ^ 53)) (ofInt 10) moved ∧
        moved.toRat? = some ((-2 ^ 53 * 2 ^ 10 : ℤ) : ℚ) ∧
        Computes .shiftRight moved (ofInt 10) back ∧ back.toRat? = some ((-2 ^ 53 : ℤ) : ℚ) := by
  have hlow : (ofInt (-2 ^ 53)).toRat? = some ((-2 ^ 53 : ℤ) : ℚ) :=
    toRat?_ofInt (isDouble_of_natAbs_le (by norm_num))
  have hhigh : (ofInt (2 ^ 53 - 1)).toRat? = some ((2 ^ 53 - 1 : ℤ) : ℚ) :=
    toRat?_ofInt (isDouble_of_natAbs_le (by norm_num))
  have hcount : (ofInt 10).toRat? = some ((10 : ℕ) : ℚ) :=
    toRat?_ofInt (isDouble_of_natAbs_le (by norm_num))
  obtain ⟨hbits, hshifts⟩ := bitwise_exact
  refine ⟨hlow, hhigh, hbits _ _ _ _ hlow hhigh ?_ ?_ ?_ ?_, hcount,
    hshifts _ _ _ _ hlow hcount ?_ ?_ ?_ ?_⟩
  all_goals norm_num

end Value

end Reckon
