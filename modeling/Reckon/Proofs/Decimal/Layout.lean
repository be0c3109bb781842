import Reckon.Decimal.Basic

/-!
# The digits of a decimal

How the digits of a decimal stand in its layouts.

* The digits of a natural number begin with zero only if it is zero (`Decimal.head?_toDigits`), and
  end with zero only if it is divisible by ten (`Decimal.getLast?_toDigits`).
* `Decimal.positional` writes a decimal with a fraction as two runs of digits with a point between
  them, which `Decimal.Splits` describes (`Decimal.exists_splits`). Together they are the digits of
  the coefficient, with zeros in front if these do not reach the point.
-/

namespace Reckon

/-- A run of characters of one kind ends at the first one of another kind. -/
theorem Text.span_append {p : Char → Bool} {run rest : List Char} (hrun : ∀ c ∈ run, p c)
    (hrest : ∀ c ∈ rest.head?, p c = false) :
    (run ++ rest).takeWhile p = run ∧ (run ++ rest).dropWhile p = rest := by
  rw [List.takeWhile_append_of_pos hrun, List.dropWhile_append_of_pos hrun]
  cases rest with
  | nil => simp
  | cons c rest =>
    have hc : p c = false := hrest c rfl
    simp [hc]

namespace Decimal

/-! ### Digits of natural numbers -/

theorem isDigit_of_mem_toDigits {n : Nat} {c : Char} (h : c ∈ Nat.toDigits 10 n) : c.isDigit :=
  Nat.isDigit_of_mem_toDigits (by decide) (by decide) h

theorem isDigit_of_mem_replicate {k : Nat} {c : Char} (h : c ∈ List.replicate k '0') :
    c.isDigit := by
  rw [List.eq_of_mem_replicate h]
  rfl

/-- Zeros in front of digits do not count. -/
theorem ofDigitChars_zeros (k : Nat) (cs : List Char) :
    Nat.ofDigitChars 10 (List.replicate k '0' ++ cs) 0 = Nat.ofDigitChars 10 cs 0 := by
  rw [Nat.ofDigitChars_append, Nat.ofDigitChars_replicate_zero, Nat.mul_zero]

theorem digitChar_ne_zero {d : Nat} (hd : d ≠ 0) : d.digitChar ≠ '0' := by
  simpa using hd

theorem head?_toDigits {n : Nat} (hn : n ≠ 0) : (Nat.toDigits 10 n).head? ≠ some '0' := by
  induction n using Nat.strongRecOn with
  | ind n ih =>
    rcases Nat.lt_or_ge n 10 with hlt | hge
    · rw [Nat.toDigits_of_lt_base hlt]
      simpa using digitChar_ne_zero hn
    · rw [Nat.toDigits_of_base_le (by decide) hge, List.head?_append,
        Option.or_of_isSome (List.isSome_head?.mpr Nat.toDigits_ne_nil)]
      exact ih (n / 10) (by omega) (by omega)

theorem getLast?_toDigits (n : Nat) :
    (Nat.toDigits 10 n).getLast? = some (n % 10).digitChar := by
  rcases Nat.lt_or_ge n 10 with hlt | hge
  · rw [Nat.toDigits_of_lt_base hlt, Nat.mod_eq_of_lt hlt]
    rfl
  · rw [Nat.toDigits_of_base_le (by decide) hge, List.getLast?_concat]

/-! ### Decimals with a fraction -/

/-- The digits in front of and behind the point of a decimal. -/
structure Splits (d : Decimal) (whole fraction : List Char) : Prop where
  whole_ne_nil : whole ≠ []
  exponent_eq : d.exponent = -(fraction.length : Int)
  /-- Both together are the digits of the coefficient. Zeros are put in front of them only if a
  single one of these is to stand before the point. -/
  append_eq : ∃ zeros, whole ++ fraction = List.replicate zeros '0' ++ d.digits ∧
    (zeros = 0 ∨ whole = ['0'])

namespace Splits

variable {d : Decimal} {whole fraction : List Char}

theorem isDigit (h : Splits d whole fraction) : ∀ c ∈ whole ++ fraction, c.isDigit := by
  obtain ⟨zeros, hdigits, -⟩ := h.append_eq
  intro c hc
  rw [hdigits] at hc
  exact (List.mem_append.mp hc).elim isDigit_of_mem_replicate isDigit_of_mem_toDigits

theorem ofDigitChars (h : Splits d whole fraction) :
    Nat.ofDigitChars 10 (whole ++ fraction) 0 = d.coefficient := by
  obtain ⟨zeros, hdigits, -⟩ := h.append_eq
  rw [hdigits, ofDigitChars_zeros]
  exact Nat.ofDigitChars_ten_toDigits

/-- What stands before the point is a single zero or does not begin with one. -/
theorem eq_zero_or_head? (h : Splits d whole fraction) (hd : d.coefficient ≠ 0) :
    whole = ['0'] ∨ whole.head? ≠ some '0' := by
  obtain ⟨zeros, hdigits, rfl | hwhole⟩ := h.append_eq
  · right
    have hhead := head?_toDigits hd
    rwa [show Nat.toDigits 10 d.coefficient = whole ++ fraction from hdigits.symm,
      List.head?_append, Option.or_of_isSome (List.isSome_head?.mpr h.whole_ne_nil)] at hhead
  · exact .inl hwhole

/-- A fraction ends as the coefficient does. -/
theorem getLast?_fraction (h : Splits d whole fraction) (hd : d.exponent < 0) :
    fraction.getLast? = some (d.coefficient % 10).digitChar := by
  obtain ⟨zeros, hdigits, -⟩ := h.append_eq
  have hne : fraction ≠ [] := by
    rintro rfl
    have := h.exponent_eq
    simp at this
    omega
  have hlast : (whole ++ fraction).getLast? = fraction.getLast? := by
    rw [List.getLast?_append, Option.or_of_isSome (List.getLast?_isSome.mpr hne)]
  rw [← hlast, hdigits, List.getLast?_append, Decimal.digits, getLast?_toDigits, Option.some_or]

end Splits

/-- A decimal with a fraction is written as its two parts with a point between them. -/
theorem exists_splits {d : Decimal} (hneg : d.exponent < 0) :
    ∃ whole fraction, d.positional = whole ++ '.' :: fraction ∧ Splits d whole fraction := by
  obtain ⟨places, hplaces⟩ : ∃ k : Nat, d.exponent = -(k : Int) := ⟨(-d.exponent).toNat, by omega⟩
  rw [positional, if_neg (by omega), hplaces, Int.neg_neg, Int.toNat_natCast]
  by_cases hsize : places < d.digits.length
  · -- The point stands among the digits.
    rw [if_pos hsize]
    refine ⟨_, _, rfl, ?_, ?_, 0, ?_, .inl rfl⟩
    · refine List.ne_nil_of_length_pos ?_
      rw [List.length_take]
      omega
    · rw [hplaces, List.length_drop, Nat.sub_sub_self (Nat.le_of_lt hsize)]
    · rw [List.take_append_drop]
      rfl
  · -- The point stands in front of the digits, with zeros between if they do not reach it.
    rw [if_neg hsize]
    refine ⟨['0'], _, rfl, by simp, ?_, places - d.digits.length + 1, rfl, .inr rfl⟩
    rw [hplaces, List.length_append, List.length_replicate,
      Nat.sub_add_cancel (Nat.le_of_not_lt hsize)]

theorem positional_of_nonneg {d : Decimal} (h : 0 ≤ d.exponent) :
    d.positional = d.digits ++ List.replicate d.exponent.toNat '0' := if_pos h

end Decimal

end Reckon
