import Mathlib.Algebra.Order.Floor.Ring
import Mathlib.Data.Int.Bitwise
import Mathlib.Data.Int.ModEq
import Mathlib.Data.Rat.Floor
import Reckon.Binary64.Arith

/-!
# 64-bit words as integers

Words are integers of the range from `-2⁶³` up to `2⁶³`. What is done with them is arithmetic of
integers without bounds, brought back into the range by `Int64Range.wrap`.

* `wrap` picks the member of the range that is congruent modulo `2⁶⁴` (`wrap_eq_iff`).
* Moving left multiplies by a power of two and wraps, moving right divides by one and rounds down,
  for every count (`shifts_eq_unbounded`). The cut at 64 places loses nothing: a multiple of `2⁶⁴`
  wraps to zero, and a word divided by more than that rounds to its sign.
* Bitwise operations are those on integers with infinitely many bits (`bitwise_eq`). Both sides are
  compared bit by bit. That a range of two's complement is closed under such an operation is a
  statement about bits as well: in the range from `-2ᵏ` up to `2ᵏ` are the integers whose bits from
  place `k` on are all the same (`inRange_iff_testBit`).
-/

namespace Reckon

namespace Int64Range

/-- The integer has a place in two's complement with `k` bits besides the sign. -/
def InRange (k : ℕ) (n : ℤ) : Prop := -2 ^ k ≤ n ∧ n < 2 ^ k

variable {n m word count : ℤ}

theorem InRange.mono {k k' : ℕ} (h : InRange k n) (hk : k ≤ k') : InRange k' n := by
  have hpow : (2 : ℤ) ^ k ≤ 2 ^ k' := pow_le_pow_right₀ (by norm_num) hk
  exact ⟨(neg_le_neg hpow).trans h.1, h.2.trans_le hpow⟩

/-! ### Wrapping -/

theorem twoPow_cast (k : ℕ) : (twoPow k : ℤ) = 2 ^ k := Nat.cast_pow 2 k

/-- **Wrapping.** The wrapped integer is the one in the range that is congruent. -/
theorem wrap_eq_iff : wrap n = m ↔ InRange 63 m ∧ m ≡ n [ZMOD 2 ^ 64] := by
  simp only [wrap, greatest, twoPow_cast, InRange, Int.ModEq]
  norm_num
  split <;> omega

theorem inRange_wrap (n : ℤ) : InRange 63 (wrap n) := (wrap_eq_iff.mp rfl).1

theorem wrap_of_inRange (h : InRange 63 n) : wrap n = n :=
  wrap_eq_iff.mpr ⟨h, Int.ModEq.refl n⟩

theorem wrap_congr (h : n ≡ m [ZMOD 2 ^ 64]) : wrap n = wrap m := by
  obtain ⟨hmem, hcongr⟩ := wrap_eq_iff.mp (rfl : wrap m = wrap m)
  exact wrap_eq_iff.mpr ⟨hmem, hcongr.trans h.symm⟩

/-! ### Shifts -/

/-- Moving left is a product, also past the last place. -/
theorem shiftLeft_of_nonneg (word : ℤ) (h : 0 ≤ count) :
    shiftLeft word count = wrap (word * 2 ^ count.toNat) := by
  rw [shiftLeft, if_neg (not_lt.mpr h), twoPow_cast]
  split_ifs with hcut
  · have hdvd : (2 : ℤ) ^ 64 ∣ word * 2 ^ count.toNat :=
      Dvd.dvd.mul_left (pow_dvd_pow 2 (by omega)) word
    exact (wrap_eq_iff.mpr ⟨by norm_num [InRange], (Int.modEq_zero_iff_dvd.mpr hdvd).symm⟩).symm
  · rfl

/-- Moving right is a quotient rounded down, also past the last place. -/
theorem shiftRight_of_nonneg (hword : InRange 63 word) (h : 0 ≤ count) :
    shiftRight word count = word / 2 ^ count.toNat := by
  rw [shiftRight, if_neg (not_lt.mpr h), twoPow_cast]
  split_ifs with hcut hneg
  · -- A quotient of small numbers rounds down to minus one.
    have hsmall : (2 : ℤ) ^ 63 ≤ 2 ^ count.toNat := pow_le_pow_right₀ (by norm_num) (by omega)
    exact (Int.ediv_eq_neg_one_of_neg_of_le hneg (by linarith [hword.1])).symm
  · have hsmall : (2 : ℤ) ^ 63 ≤ 2 ^ count.toNat := pow_le_pow_right₀ (by norm_num) (by omega)
    exact (Int.ediv_eq_zero_of_lt (not_lt.mp hneg) (by linarith [hword.2])).symm
  · rfl

private theorem shiftLeft_of_neg (word : ℤ) (h : count < 0) :
    shiftLeft word count = shiftRight word (-count) := by
  rw [shiftLeft, if_pos h]

/-- One direction is the other with the count turned around. At zero this needs the word to be in
range, since only moving left wraps. -/
theorem shiftRight_eq_shiftLeft_neg (hword : InRange 63 word) (count : ℤ) :
    shiftRight word count = shiftLeft word (-count) := by
  rcases lt_trichotomy count 0 with hneg | rfl | hpos
  · rw [shiftRight, if_pos hneg]
  · rw [shiftRight_of_nonneg hword le_rfl, neg_zero, shiftLeft_of_nonneg word le_rfl]
    simp [wrap_of_inRange hword]
  · rw [shiftLeft_of_neg word (neg_lt_zero.mpr hpos), neg_neg]

private theorem InRange.ediv_two_pow (hword : InRange 63 word) (k : ℕ) :
    InRange 63 (word / 2 ^ k) := by
  have hone : (1 : ℤ) ≤ 2 ^ k := one_le_pow₀ (by norm_num)
  have hpos : (0 : ℤ) < 2 ^ k := by positivity
  refine ⟨(Int.le_ediv_iff_mul_le hpos).mpr ?_, (Int.ediv_lt_iff_lt_mul hpos).mpr ?_⟩
  · nlinarith [hword.1]
  · nlinarith [hword.2]

theorem InRange.shiftLeft (hword : InRange 63 word) (count : ℤ) :
    InRange 63 (shiftLeft word count) := by
  rcases lt_or_ge count 0 with hneg | hpos
  · rw [shiftLeft_of_neg word hneg, shiftRight_of_nonneg hword (by omega)]
    exact hword.ediv_two_pow _
  · rw [shiftLeft_of_nonneg word hpos]
    exact inRange_wrap _

/-- **Shifts are arithmetic without bounds.** Wrapping finds the one integer of the range that is
congruent modulo `2⁶⁴`. A word moved left is the wrapped product with a power of two, and moved by a
negative count the quotient rounded down, whatever the count; moving right turns the count around.
Neither leaves the range. -/
theorem shifts_eq_unbounded :
    (∀ n m : ℤ, wrap n = m ↔ (-2 ^ 63 ≤ m ∧ m < 2 ^ 63) ∧ m ≡ n [ZMOD 2 ^ 64]) ∧
    ∀ word count : ℤ, -2 ^ 63 ≤ word → word < 2 ^ 63 →
      (0 ≤ count → shiftLeft word count = wrap (word * 2 ^ count.toNat)) ∧
      (count < 0 → shiftLeft word count = ⌊(word : ℚ) / 2 ^ (-count).toNat⌋) ∧
      shiftRight word count = shiftLeft word (-count) ∧
      (-2 ^ 63 ≤ shiftLeft word count ∧ shiftLeft word count < 2 ^ 63) ∧
      -2 ^ 63 ≤ shiftRight word count ∧ shiftRight word count < 2 ^ 63 := by
  refine ⟨fun n m => wrap_eq_iff, fun word count hleast hgreatest => ?_⟩
  have hword : InRange 63 word := ⟨hleast, hgreatest⟩
  refine ⟨?_, ?_, ?_, ?_, ?_⟩
  · intro hcount
    exact shiftLeft_of_nonneg word hcount
  · intro hcount
    have hfloor := Rat.floor_intCast_div_natCast word (2 ^ (-count).toNat)
    push_cast at hfloor
    rw [shiftLeft_of_neg word hcount, shiftRight_of_nonneg hword (by omega), hfloor]
  · exact shiftRight_eq_shiftLeft_neg hword count
  · exact hword.shiftLeft count
  · rw [shiftRight_eq_shiftLeft_neg hword count]
    exact hword.shiftLeft _

/-- At counts past the last place, and at the least word as a count, which is no word when it is
turned around. -/
theorem shifts_eq_unbounded_past_last :
    (-2 ^ 63 ≤ (-5 : ℤ) ∧ (-5 : ℤ) < 2 ^ 63) ∧
      shiftLeft (-5) 70 = wrap (-5 * 2 ^ 70) ∧
      shiftLeft (-5) (-70) = ⌊((-5 : ℤ) : ℚ) / 2 ^ 70⌋ ∧
      shiftRight (-5) (-2 ^ 63) = shiftLeft (-5) (2 ^ 63) := by
  obtain ⟨-, hshifts⟩ := shifts_eq_unbounded
  have hat (count : ℤ) := hshifts (-5) count (by norm_num) (by norm_num)
  refine ⟨by norm_num, (hat 70).1 (by norm_num), (hat (-70)).2.1 (by norm_num), ?_⟩
  have hturn := (hat (-2 ^ 63)).2.2.1
  rwa [neg_neg] at hturn

/-! ### Bits -/

theorem bits_modEq (n : ℤ) : (bits n : ℤ) ≡ n [ZMOD 2 ^ 64] := by
  have hnonneg : 0 ≤ n % 2 ^ 64 := Int.emod_nonneg n (by norm_num)
  rw [bits, twoPow_cast, Int.toNat_of_nonneg hnonneg]
  exact Int.mod_modEq n _

/-- The bits of a word are its bits as an integer, as far as there are places for them. -/
theorem testBit_bits (n : ℤ) (i : ℕ) : (bits n).testBit i = (decide (i < 64) && n.testBit i) := by
  cases n with
  | ofNat n =>
    have hbits : bits (Int.ofNat n) = n % 2 ^ 64 := rfl
    rw [hbits, Nat.testBit_mod_two_pow]
    rfl
  | negSucc n =>
    have hlt : n % 2 ^ 64 < 2 ^ 64 := Nat.mod_lt n (by norm_num)
    have hbits : bits (Int.negSucc n) = 2 ^ 64 - (n % 2 ^ 64 + 1) := by
      rw [bits, twoPow_cast, Int.negSucc_emod n (by norm_num)]
      omega
    rw [hbits, Nat.testBit_two_pow_sub_succ hlt, Nat.testBit_mod_two_pow]
    by_cases hi : i < 64
    · simp [hi, Int.testBit]
    · simp [hi]

/-- A natural number is below a power of two if its bits from there on are the same, as they cannot
all be set. -/
theorem lt_two_pow_iff_testBit {k n : ℕ} : n < 2 ^ k ↔ ∃ b, ∀ i ≥ k, n.testBit i = b := by
  constructor
  · intro h
    refine ⟨false, fun i hi => Nat.testBit_lt_two_pow (h.trans_le ?_)⟩
    exact Nat.pow_le_pow_right (by norm_num) hi
  · rintro ⟨b, hb⟩
    have hlast : n.testBit (max k n) = false :=
      Nat.testBit_lt_two_pow (Nat.lt_two_pow_self.trans_le
        (Nat.pow_le_pow_right (by norm_num) (le_max_right k n)))
    obtain rfl : b = false := (hb _ (le_max_left k n)).symm.trans hlast
    exact Nat.lt_pow_two_of_testBit n hb

/-- **Ranges of two's complement.** The integers from `-2ᵏ` up to `2ᵏ` are those whose bits from
place `k` on repeat the sign. -/
theorem inRange_iff_testBit {k : ℕ} :
    InRange k n ↔ ∃ b, ∀ i ≥ k, n.testBit i = b := by
  cases n with
  | ofNat n =>
    have hmem : InRange k (Int.ofNat n) ↔ n < 2 ^ k := by
      have hpos : (0 : ℤ) < 2 ^ k := by positivity
      rw [Int.ofNat_eq_natCast, InRange, and_iff_right (by omega)]
      exact_mod_cast Iff.rfl
    exact hmem.trans lt_two_pow_iff_testBit
  | negSucc n =>
    have hmem : InRange k (Int.negSucc n) ↔ n < 2 ^ k := by
      have hpos : (0 : ℤ) < 2 ^ k := by positivity
      rw [InRange, and_iff_left (by omega), Int.negSucc_eq, neg_le_neg_iff]
      exact_mod_cast Iff.rfl
    rw [hmem, lt_two_pow_iff_testBit]
    constructor
    · rintro ⟨b, hb⟩
      exact ⟨!b, fun i hi => congrArg (!·) (hb i hi)⟩
    · rintro ⟨b, hb⟩
      exact ⟨!b, fun i hi => by rw [← hb i hi, Int.testBit, Bool.not_not]⟩

variable {f : Bool → Bool → Bool} {a b : ℤ}

/-- A range of two's complement is closed under what acts bit by bit. -/
theorem InRange.bitwise {k : ℕ} (f : Bool → Bool → Bool) (ha : InRange k a) (hb : InRange k b) :
    InRange k (Int.bitwise f a b) := by
  obtain ⟨s, hs⟩ := inRange_iff_testBit.mp ha
  obtain ⟨t, ht⟩ := inRange_iff_testBit.mp hb
  refine inRange_iff_testBit.mpr ⟨f s t, fun i hi => ?_⟩
  rw [Int.testBit_bitwise, hs i hi, ht i hi]

theorem bits_bitwise (hf : f false false = false) (a b : ℤ) :
    Nat.bitwise f (bits a) (bits b) = bits (Int.bitwise f a b) := by
  refine Nat.eq_of_testBit_eq fun i => ?_
  rw [Nat.testBit_bitwise hf, testBit_bits, testBit_bits, testBit_bits, Int.testBit_bitwise]
  by_cases hi : i < 64
  · simp [hi]
  · simp [hi, hf]

/-- **Bitwise operations.** On words they are those of integers with infinitely many bits. -/
theorem bitwise_eq (hf : f false false = false) (ha : InRange 63 a) (hb : InRange 63 b) :
    bitwise (Nat.bitwise f) a b = Int.bitwise f a b :=
  calc bitwise (Nat.bitwise f) a b
      = wrap (bits (Int.bitwise f a b)) := by rw [bitwise, bits_bitwise hf]
    _ = wrap (Int.bitwise f a b) := wrap_congr (bits_modEq _)
    _ = Int.bitwise f a b := wrap_of_inRange (ha.bitwise f hb)

theorem xor_xor_cancel (a b : ℤ) : Int.xor (Int.xor a b) b = a := by
  cases a <;> cases b <;> simp [Int.xor]

/-- What two integers share and what either has add up to both. -/
theorem land_add_lor {k : ℕ} (ha : InRange k a) (hb : InRange k b) :
    Int.land a b + Int.lor a b = a + b := by
  -- The last bits add up, and the halves have a bit less.
  induction k generalizing a b with
  | zero =>
    obtain rfl | rfl : a = -1 ∨ a = 0 := by simp only [InRange] at ha; omega
    all_goals obtain rfl | rfl : b = -1 ∨ b = 0 := by simp only [InRange] at hb; omega
    all_goals decide +kernel
  | succ k ih =>
    obtain ⟨p, a, rfl⟩ : ∃ p a', a = Int.bit p a' := ⟨_, _, (Int.bit_decomp a).symm⟩
    obtain ⟨q, b, rfl⟩ : ∃ q b', b = Int.bit q b' := ⟨_, _, (Int.bit_decomp b).symm⟩
    have hhalf {x : ℤ} {r : Bool} (hx : InRange (k + 1) (Int.bit r x)) : InRange k x := by
      rw [InRange, Int.bit_val, pow_succ] at hx
      rw [InRange]
      cases r <;> simp only [cond_true, cond_false] at hx <;> omega
    have hsum := ih (hhalf ha) (hhalf hb)
    rw [Int.land_bit, Int.lor_bit]
    simp only [Int.bit_val]
    cases p <;> cases q <;> simp only [Bool.and_true, Bool.and_false, Bool.or_true, Bool.or_false,
      cond_true, cond_false] <;> omega

end Int64Range

end Reckon
