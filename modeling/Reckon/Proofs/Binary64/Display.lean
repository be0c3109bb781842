import Reckon.Proofs.Binary64.Whole
import Reckon.Proofs.Text.NumberPattern
import Reckon.Proofs.Text.Numeral

/-!
# Display forms

The display form of a double is canonical (`Binary64.display_canonical`). It matches
`Text.displayPattern`, which leaves no choice of zeros, and it has a point if the double has a
fraction. A whole number is written with all its digits. Any other number is written with the
fewest digits that read back, so it denotes the same rational number as the diagnostic form, which
has an exponent where that is shorter.

Different doubles have different display forms, because a display form is read as the double that it
was written for.
-/

namespace Reckon

namespace Text

/-! ### The pattern -/

/-- Any digit but zero. -/
def nonzeroDigit : RegularExpression Char := oneOf "123456789".toList

/-- The digits in front of the point, without needless zeros. -/
def wholePattern : RegularExpression Char := .char '0' + nonzeroDigit * digits

/-- A point and the digits behind it, without needless zeros. -/
def fractionPattern : RegularExpression Char := .char '.' * digits * nonzeroDigit

/-- The display form of a finite number. -/
def displayPattern : RegularExpression Char :=
  (1 + .char '-') * wholePattern * (1 + fractionPattern)

private theorem mem_nonzeroDigit {c : Char} (hdigit : c.isDigit) (hc : c ≠ '0') :
    [c] ∈ nonzeroDigit.matches' := by
  have hall : "0123456789".toList = '0' :: "123456789".toList := rfl
  rw [isDigit_iff_mem, hall, List.mem_cons] at hdigit
  exact mem_oneOf_iff.mpr ⟨c, hdigit.resolve_left hc, rfl⟩

variable {whole fraction back : List Char}

private theorem mem_wholePattern (hne : whole ≠ []) (hdigits : ∀ c ∈ whole, c.isDigit)
    (hhead : whole = ['0'] ∨ whole.head? ≠ some '0') : whole ∈ wholePattern.matches' := by
  rw [wholePattern, RegularExpression.matches'_add, Language.mem_add]
  rcases hhead with rfl | hhead
  · exact .inl rfl
  · obtain ⟨c, rest, rfl⟩ := List.exists_cons_of_ne_nil hne
    obtain ⟨hc, hrest⟩ := List.forall_mem_cons.mp hdigits
    rw [RegularExpression.matches'_mul, Language.mem_mul]
    have hzero : c ≠ '0' := by simpa using hhead
    exact .inr ⟨[c], mem_nonzeroDigit hc hzero, rest, mem_digits_iff.mpr hrest, rfl⟩

private theorem mem_fractionPattern (hdigits : ∀ c ∈ fraction, c.isDigit) {c : Char}
    (hlast : fraction.getLast? = some c) (hc : c ≠ '0') :
    '.' :: fraction ∈ fractionPattern.matches' := by
  obtain ⟨front, rfl⟩ := List.getLast?_eq_some_iff.mp hlast
  obtain ⟨hfront, hdigit⟩ := List.forall_mem_append.mp hdigits
  rw [fractionPattern, RegularExpression.matches'_mul, RegularExpression.matches'_mul,
    Language.mem_mul]
  refine ⟨'.' :: front, ?_, [c], mem_nonzeroDigit (hdigit c (by simp)) hc, rfl⟩
  rw [Language.mem_mul]
  exact ⟨['.'], rfl, front, mem_digits_iff.mpr hfront, rfl⟩

theorem mem_displayPattern (negative : Bool) (hwhole : whole ∈ wholePattern.matches')
    (hback : back = [] ∨ back ∈ fractionPattern.matches') :
    Binary64.signText negative ++ (whole ++ back) ∈ displayPattern.matches' := by
  simp only [displayPattern, RegularExpression.matches'_mul, RegularExpression.matches'_add,
    RegularExpression.matches'_epsilon, RegularExpression.matches'_char, Language.mem_mul,
    Language.mem_add, Language.mem_one]
  refine ⟨_, ⟨_, ?_, whole, hwhole, rfl⟩, back, hback, List.append_assoc ..⟩
  cases negative with
  | false => exact .inl rfl
  | true => exact .inr rfl

end Text

namespace Binary64

/-! ### Whole numbers and fractions -/

variable {s : Bool} {n : ℕ} {h : Representable n}

/-- A double is an integer if its quanta are whole ones. -/
theorem exists_ratio_eq_intCast_iff : (∃ k : ℤ, ratio s n = k) ↔ n % quantaPerOne = 0 := by
  constructor
  · rintro ⟨k, hk⟩
    rw [ratio, div_eq_iff quantaPerOne_cast_pos.ne'] at hk
    have hsigned : signed s n = k * quantaPerOne := by exact_mod_cast hk
    have hdvd : (quantaPerOne : ℤ) ∣ signed s n := ⟨k, hsigned.trans (mul_comm _ _)⟩
    refine Nat.mod_eq_zero_of_dvd (Int.natCast_dvd_natCast.mp ?_)
    cases s with
    | false => exact hdvd
    | true => exact (Int.dvd_neg (b := (n : ℤ))).mp hdvd
  · intro hwhole
    refine ⟨signed s (n / quantaPerOne), ?_⟩
    rw [← ratio_mul_quantaPerOne, Nat.div_mul_cancel (Nat.dvd_of_mod_eq_zero hwhole)]

theorem displayChars_of_whole (hwhole : n % quantaPerOne = 0) :
    (finite s n h).displayChars = signText s ++ Nat.toDigits 10 (n / quantaPerOne) := by
  rw [displayChars, if_pos hwhole]

theorem displayChars_of_fraction (hfraction : n % quantaPerOne ≠ 0) :
    (finite s n h).displayChars = signText s ++ (Decimal.shortest n h).positional := by
  rw [displayChars, if_neg hfraction]

private theorem pos_of_fraction (hfraction : n % quantaPerOne ≠ 0) : 0 < n := by
  refine Nat.pos_of_ne_zero ?_
  rintro rfl
  exact hfraction (Nat.zero_mod _)

private theorem debugChars_of_fraction (hfraction : n % quantaPerOne ≠ 0) :
    (finite s n h).debugChars = signText s ++ debugDecimal (Decimal.shortest n h) := by
  rw [debugChars, if_neg (pos_of_fraction hfraction).ne']

/-! ### Canonical texts -/

/-- **The pattern.** -/
theorem displayChars_mem_displayPattern (s : Bool) (n : ℕ) (h : Representable n) :
    (finite s n h).displayChars ∈ Text.displayPattern.matches' := by
  by_cases hwhole : n % quantaPerOne = 0
  · have hmem : Nat.toDigits 10 (n / quantaPerOne) ∈ Text.wholePattern.matches' := by
      refine Text.mem_wholePattern Nat.toDigits_ne_nil (fun _ => Decimal.isDigit_of_mem_toDigits) ?_
      rcases Nat.eq_zero_or_pos (n / quantaPerOne) with hzero | hpos
      · rw [hzero]
        exact .inl rfl
      · exact .inr (Decimal.head?_toDigits hpos.ne')
    have htext := Text.mem_displayPattern s hmem (.inl rfl)
    rwa [List.append_nil, ← displayChars_of_whole hwhole (h := h)] at htext
  · have hexponent := Decimal.exponent_shortest_neg (h := h) hwhole
    have hlast := Decimal.coefficient_shortest_mod_ten (h := h) (pos_of_fraction hwhole)
    obtain ⟨whole, fraction, htext, hsplits⟩ := Decimal.exists_splits hexponent
    obtain ⟨hdigits, hdigits'⟩ := List.forall_mem_append.mp hsplits.isDigit
    rw [displayChars_of_fraction hwhole, htext]
    refine Text.mem_displayPattern s
      (Text.mem_wholePattern hsplits.whole_ne_nil hdigits (hsplits.eq_zero_or_head? ?_))
      (.inr (Text.mem_fractionPattern hdigits' (hsplits.getLast?_fraction hexponent)
        (Decimal.digitChar_ne_zero hlast)))
    intro hzero
    exact hlast (by rw [hzero])

private theorem point_notMem_signText (s : Bool) : '.' ∉ signText s := by
  cases s <;> decide

/-- **Points.** A display form has a point if the double is finite and no integer. -/
theorem point_mem_displayChars_iff (x : Binary64) :
    '.' ∈ x.displayChars ↔ ∃ q, x.toRat? = some q ∧ ∀ k : ℤ, q ≠ k := by
  cases x with
  | nan => exact iff_of_false (by decide) (by simp [toRat?])
  | inf s => exact iff_of_false (by cases s <;> decide) (by simp [toRat?])
  | finite s n h =>
    have hratio : (∃ q, (finite s n h).toRat? = some q ∧ ∀ k : ℤ, q ≠ k) ↔
        n % quantaPerOne ≠ 0 := by
      rw [Ne, ← exists_ratio_eq_intCast_iff (s := s), not_exists]
      simp [toRat?]
    rw [hratio]
    by_cases hwhole : n % quantaPerOne = 0
    · refine iff_of_false ?_ (not_not.mpr hwhole)
      rw [displayChars_of_whole hwhole, List.mem_append, not_or]
      refine ⟨point_notMem_signText s, fun hpoint => ?_⟩
      simpa using Decimal.isDigit_of_mem_toDigits hpoint
    · refine iff_of_true ?_ hwhole
      obtain ⟨whole, fraction, htext, -⟩ :=
        Decimal.exists_splits (Decimal.exponent_shortest_neg (h := h) hwhole)
      rw [displayChars_of_fraction hwhole, htext]
      simp

variable {x : Binary64}

/-- **Whole numbers.** The display form of an integer denotes it. -/
theorem rational?_displayChars {k : ℤ} (hx : x.toRat? = some (k : ℚ)) :
    Numeral.rational? x.displayChars = some (k : ℚ) := by
  cases x with
  | nan => simp [toRat?] at hx
  | inf s => simp [toRat?] at hx
  | finite s n h =>
    have hratio : ratio s n = k := Option.some.inj hx
    have hwhole := exists_ratio_eq_intCast_iff.mp ⟨k, hratio⟩
    rw [← Nat.div_mul_cancel (Nat.dvd_of_mod_eq_zero hwhole), ratio_mul_quantaPerOne] at hratio
    rw [displayChars_of_whole hwhole, ← hratio]
    generalize n / quantaPerOne = m
    have hvalue : (⟨m, 0⟩ : Decimal).value = m := by simp [Decimal.value]
    rw [Numeral.rational?_signText s (Numeral.unsigned?_toDigits m), hvalue]
    cases s with
    | false => simp [signed]
    | true => simp [signed]

/-- **Fractions.** The display form of a double that is no integer denotes the same number as the
diagnostic form: a decimal that rounds to the double and has the fewest digits of those that do. -/
theorem exists_fewest_digits {q : ℚ} (hx : x.toRat? = some q) (hq : ∀ k : ℤ, q ≠ k) :
    ∃ (negative : Bool) (d : Decimal), ofDecimal negative d.coefficient d.exponent = x ∧
      (∀ e : Decimal, ofDecimal negative e.coefficient e.exponent = x →
        d.digits.length ≤ e.digits.length) ∧
      Numeral.rational? x.displayChars = some (if negative then -d.value else d.value) ∧
      Numeral.rational? x.debugChars = some (if negative then -d.value else d.value) := by
  cases x with
  | nan => simp [toRat?] at hx
  | inf s => simp [toRat?] at hx
  | finite s n h =>
    obtain rfl : ratio s n = q := Option.some.inj hx
    have hfraction : n % quantaPerOne ≠ 0 := by
      intro hwhole
      obtain ⟨k, hk⟩ := exists_ratio_eq_intCast_iff.mpr hwhole
      exact hq k hk
    have hexponent := Decimal.exponent_shortest_neg (h := h) hfraction
    have hreads (d : Decimal) : ofDecimal s d.coefficient d.exponent = finite s n h ↔
        Decimal.readsAs n h d :=
      Decimal.ofDecimal_eq_finite_iff.trans Decimal.readsAs_iff_roundQuanta.symm
    refine ⟨s, Decimal.shortest n h, (hreads _).mpr Decimal.readsAs_shortest, ?_, ?_, ?_⟩
    · intro e he
      exact Decimal.length_digits_shortest_le (pos_of_fraction hfraction) ((hreads e).mp he)
    · rw [displayChars_of_fraction hfraction]
      exact Numeral.rational?_signText s (Numeral.unsigned?_positional hexponent)
    · rw [debugChars_of_fraction hfraction]
      exact Numeral.rational?_signText s (Numeral.unsigned?_debugDecimal hexponent)

/-- **Different doubles have different display forms**: a display form is read as its double. -/
theorem eq_of_displayChars_eq {y : Binary64} (hxy : x.displayChars = y.displayChars) : x = y := by
  have hx := ofChars?_eq_some_iff.mpr (numberText_display x)
  have hy := ofChars?_eq_some_iff.mpr (numberText_display y)
  rw [hxy] at hx
  exact Option.some.inj (hx.symm.trans hy)

theorem toList_display (x : Binary64) : x.display.toList = x.displayChars := String.toList_ofList

theorem toList_debug (x : Binary64) : x.debug.toList = x.debugChars := String.toList_ofList

/-- **Display forms are canonical.** A double is written as a word if it is not finite, and else as
the pattern says; with a point if it is finite and no integer; as an integer exactly if it is one,
and with a minus if it is negative zero; if it has a fraction, as the number that its diagnostic
form denotes, which has the fewest digits that round to the double. No other double is written in
the same way. -/
theorem display_canonical (x : Binary64) :
    (x = nan ∧ x.display = "NaN" ∨ x = inf false ∧ x.display = "inf" ∨
      x = inf true ∧ x.display = "-inf" ∨
      x.isFinite ∧ x.display.toList ∈ Text.displayPattern.matches') ∧
    ('.' ∈ x.display.toList ↔ ∃ q, x.toRat? = some q ∧ ∀ k : ℤ, q ≠ k) ∧
    (∀ k : ℤ, x.toRat? = some (k : ℚ) → Numeral.rational? x.display.toList = some (k : ℚ)) ∧
    (x = finite true 0 representable_zero → x.display = "-0") ∧
    (∀ q, x.toRat? = some q → (∀ k : ℤ, q ≠ k) →
      ∃ (negative : Bool) (d : Decimal), ofDecimal negative d.coefficient d.exponent = x ∧
        (∀ e : Decimal, ofDecimal negative e.coefficient e.exponent = x →
          d.digits.length ≤ e.digits.length) ∧
        Numeral.rational? x.display.toList = some (if negative then -d.value else d.value) ∧
        Numeral.rational? x.debug.toList = some (if negative then -d.value else d.value)) ∧
    ∀ y : Binary64, x.display = y.display → x = y := by
  rw [toList_display, toList_debug]
  refine ⟨?_, point_mem_displayChars_iff x, fun k => rational?_displayChars, ?_,
    fun q => exists_fewest_digits, fun y hxy => eq_of_displayChars_eq ?_⟩
  · rcases x with _ | ⟨_ | _⟩ | ⟨s, n, h⟩
    · exact .inl ⟨rfl, rfl⟩
    · exact .inr (.inl ⟨rfl, rfl⟩)
    · exact .inr (.inr (.inl ⟨rfl, rfl⟩))
    · exact .inr (.inr (.inr ⟨rfl, displayChars_mem_displayPattern s n h⟩))
  · rintro rfl
    rw [display, displayChars_of_whole (Nat.zero_mod _), Nat.zero_div]
    rfl
  · rw [← toList_display, ← toList_display, hxy]

/-- The negative double next to zero takes 324 places, and an exponent in its diagnostic form. The
double nearest to `10²³` is displayed with all its digits, although one digit reads back. Negative
zero keeps its sign. -/
theorem display_canonical_extremes :
    ((ofDecimal true 5 (-324)).debug = "-5e-324" ∧
      (ofDecimal true 5 (-324)).display = "-0." ++ String.ofList (List.replicate 323 '0') ++ "5" ∧
      ∃ q, (ofDecimal true 5 (-324)).toRat? = some q ∧ (∀ k : ℤ, q ≠ k) ∧
        ∃ r, Numeral.rational? (ofDecimal true 5 (-324)).display.toList = some r ∧
          Numeral.rational? (ofDecimal true 5 (-324)).debug.toList = some r) ∧
    ((ofDecimal false 1 23).debug = "1e+23" ∧
      (ofDecimal false 1 23).display = "99999999999999991611392" ∧
      (ofDecimal false 1 23).toRat? = some ((5960464477539062 * 2 ^ 24 : ℤ) : ℚ) ∧
      Numeral.rational? (ofDecimal false 1 23).display.toList =
        some ((5960464477539062 * 2 ^ 24 : ℤ) : ℚ)) ∧
    (finite true 0 representable_zero).display = "-0" := by
  refine ⟨⟨by decide +kernel, by decide +kernel, ?_⟩,
    ⟨by decide +kernel, by decide +kernel, ?_⟩, ?_⟩
  · obtain ⟨-, hpoint, -, -, hfewest, -⟩ := display_canonical (ofDecimal true 5 (-324))
    rw [toList_display] at hpoint
    obtain ⟨q, hx, hq⟩ := hpoint.mp (by decide +kernel)
    obtain ⟨negative, d, -, -, hdisplay, hdebug⟩ := hfewest q hx hq
    exact ⟨q, hx, hq, _, hdisplay, hdebug⟩
  · have hround : ofDecimal false 1 23 = ofInt (5960464477539062 * 2 ^ 24) := by decide +kernel
    have hx := toRat?_ofInt (isDouble_mul_pow (m := 5960464477539062) (k := 24) (by decide)
      (by decide))
    rw [← hround] at hx
    exact ⟨hx, (display_canonical _).2.2.1 _ hx⟩
  · exact (display_canonical _).2.2.2.1 rfl

end Binary64

end Reckon
