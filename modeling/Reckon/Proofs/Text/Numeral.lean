import Mathlib.Data.List.TakeWhile
import Reckon.Binary64.Text
import Reckon.Proofs.Decimal.Fewest
import Reckon.Proofs.Decimal.Layout

/-!
# What a numeral denotes

`Numeral.rational?` is the rational number that a decimal numeral denotes: a sign, digits with at
most one point, and an exponent, where sign, point and exponent may be missing. Nothing is rounded.

Both layouts of a decimal denote its value. With a fraction, they are even read as the same
coefficient and exponent again (`Numeral.unsigned?_positional`, `Numeral.unsigned?_scientific`), so
the diagnostic form of a double denotes the same number whether it has an exponent or not
(`Numeral.unsigned?_debugDecimal`).
-/

namespace Reckon

namespace Numeral

/-! ### Reading numerals -/

/-- The natural number with these digits, of which there must be one. -/
def digits? (cs : List Char) : Option ℕ :=
  if cs ≠ [] ∧ cs.all Char.isDigit then some (Nat.ofDigitChars 10 cs 0) else none

/-- Reads a sign, if there is one, and what is behind it. -/
def signed? {α : Type} [Neg α] (read : List Char → Option α) : List Char → Option α
  | '-' :: cs => (read cs).map (-·)
  | '+' :: cs => read cs
  | cs => read cs

/-- The decimal written as digits with at most one point among them. -/
def fixed? (cs : List Char) : Option Decimal :=
  match cs.dropWhile Char.isDigit with
  | [] => (digits? cs).map (⟨·, 0⟩)
  | '.' :: fraction =>
    (digits? (cs.takeWhile Char.isDigit ++ fraction)).map (⟨·, -(fraction.length : ℤ)⟩)
  | _ => none

/-- The decimal written as digits with at most one point, and an exponent if there is one. -/
def unsigned? (cs : List Char) : Option Decimal :=
  match cs.dropWhile (· != 'e') with
  | [] => fixed? cs
  | _ :: exponent => do
    let d ← fixed? (cs.takeWhile (· != 'e'))
    let e ← signed? (fun cs => (digits? cs).map Nat.cast) exponent
    some ⟨d.coefficient, d.exponent + e⟩

/-- The rational number that a numeral denotes. -/
def rational? (cs : List Char) : Option ℚ := signed? (fun cs => (unsigned? cs).map Decimal.value) cs

variable {cs whole fraction : List Char} {d : Decimal}

private theorem digits?_eq_some (hne : cs ≠ []) (h : ∀ c ∈ cs, c.isDigit) :
    digits? cs = some (Nat.ofDigitChars 10 cs 0) := if_pos ⟨hne, List.all_eq_true.mpr h⟩

private theorem fixed?_digits (hne : cs ≠ []) (h : ∀ c ∈ cs, c.isDigit) :
    fixed? cs = some ⟨Nat.ofDigitChars 10 cs 0, 0⟩ := by
  have hdrop : cs.dropWhile Char.isDigit = [] := List.dropWhile_eq_nil_iff.mpr h
  rw [fixed?, hdrop]
  dsimp only
  rw [digits?_eq_some hne h, Option.map_some]

private theorem fixed?_point (hne : whole ≠ []) (h : ∀ c ∈ whole ++ fraction, c.isDigit) :
    fixed? (whole ++ '.' :: fraction) =
      some ⟨Nat.ofDigitChars 10 (whole ++ fraction) 0, -(fraction.length : ℤ)⟩ := by
  have hwhole : ∀ c ∈ whole, c.isDigit := fun c hc => h c (List.mem_append_left _ hc)
  have hdigits := digits?_eq_some (List.append_ne_nil_of_left_ne_nil hne fraction) h
  have hend : ∀ c ∈ ('.' :: fraction).head?, c.isDigit = false := by simp
  obtain ⟨htake, hdrop⟩ := Text.span_append hwhole hend
  rw [fixed?, hdrop, htake]
  simp only [hdigits, Option.map_some]

private theorem all_ne_mark (h : 'e' ∉ cs) : ∀ c ∈ cs, (c != 'e') = true := by
  rintro c hc
  simpa using fun heq : c = 'e' => h (heq ▸ hc)

/-- Without an exponent mark there is no exponent. -/
private theorem unsigned?_of_notMem (h : 'e' ∉ cs) : unsigned? cs = fixed? cs := by
  have hdrop : cs.dropWhile (· != 'e') = [] := List.dropWhile_eq_nil_iff.mpr (all_ne_mark h)
  rw [unsigned?, hdrop]

private theorem digits?_zeros_append_toDigits (k n : ℕ) :
    digits? (List.replicate k '0' ++ Nat.toDigits 10 n) = some n := by
  rw [digits?_eq_some, Decimal.ofDigitChars_zeros, Nat.ofDigitChars_ten_toDigits]
  · simp [Nat.toDigits_ne_nil]
  · exact fun c hc => (List.mem_append.mp hc).elim Decimal.isDigit_of_mem_replicate
      Decimal.isDigit_of_mem_toDigits

private theorem unsigned?_append_exponentText (h : 'e' ∉ cs) (hd : fixed? cs = some d) (e : ℤ) :
    unsigned? (cs ++ Decimal.exponentText e) = some ⟨d.coefficient, d.exponent + e⟩ := by
  have hexponent : signed? (fun cs => (digits? cs).map (Nat.cast : ℕ → ℤ))
      (Decimal.exponentText e).tail = some e := by
    simp only [Decimal.exponentText, List.tail_cons]
    split
    next hneg =>
      rw [signed?, digits?_zeros_append_toDigits, Option.map_some, Option.map_some]
      congr 1
      omega
    next hpos =>
      rw [signed?, digits?_zeros_append_toDigits, Option.map_some]
      congr 1
      omega
  have hmark : Decimal.exponentText e = 'e' :: (Decimal.exponentText e).tail := rfl
  have hend : ∀ c ∈ (Decimal.exponentText e).head?, (c != 'e') = false := by
    rw [hmark]
    simp
  obtain ⟨htake, hdrop⟩ := Text.span_append (all_ne_mark h) hend
  rw [unsigned?, hdrop, htake, hmark]
  simp only [hd, hexponent]
  rfl

/-! ### Layouts of decimals -/

private theorem notMem_of_isDigit (h : ∀ c ∈ cs, c.isDigit) : 'e' ∉ cs := by
  intro he
  simpa using h 'e' he

private theorem notMem_point (h : ∀ c ∈ whole ++ fraction, c.isDigit) :
    'e' ∉ whole ++ '.' :: fraction := by
  have hnot := notMem_of_isDigit h
  simpa using hnot

theorem unsigned?_toDigits (n : ℕ) : unsigned? (Nat.toDigits 10 n) = some ⟨n, 0⟩ := by
  have hdigits : ∀ c ∈ Nat.toDigits 10 n, c.isDigit := fun _ => Decimal.isDigit_of_mem_toDigits
  rw [unsigned?_of_notMem (notMem_of_isDigit hdigits), fixed?_digits Nat.toDigits_ne_nil hdigits,
    Nat.ofDigitChars_ten_toDigits]

theorem unsigned?_positional (hd : d.exponent < 0) : unsigned? d.positional = some d := by
  obtain ⟨whole, fraction, htext, hsplits⟩ := Decimal.exists_splits hd
  rw [htext, unsigned?_of_notMem (notMem_point hsplits.isDigit),
    fixed?_point hsplits.whole_ne_nil hsplits.isDigit, hsplits.ofDigitChars, ← hsplits.exponent_eq]

/-- A point stands behind the first digit only if there are others. -/
private theorem fixed?_mantissa {lead : Char} (h : ∀ c ∈ lead :: fraction, c.isDigit) :
    'e' ∉ [lead] ++ (if fraction.isEmpty then [] else '.' :: fraction) ∧
      fixed? ([lead] ++ (if fraction.isEmpty then [] else '.' :: fraction)) =
        some ⟨Nat.ofDigitChars 10 (lead :: fraction) 0, -(fraction.length : ℤ)⟩ := by
  cases fraction with
  | nil => exact ⟨notMem_of_isDigit h, fixed?_digits (List.cons_ne_nil lead []) h⟩
  | cons c rest => exact ⟨notMem_point h, fixed?_point (List.cons_ne_nil lead []) h⟩

theorem unsigned?_scientific (d : Decimal) : unsigned? d.scientific = some d := by
  have hdigits : ∀ c ∈ d.digits, c.isDigit := fun _ => Decimal.isDigit_of_mem_toDigits
  have hvalue : Nat.ofDigitChars 10 d.digits 0 = d.coefficient := Nat.ofDigitChars_ten_toDigits
  obtain ⟨lead, fraction, hcons⟩ : ∃ lead fraction, d.digits = lead :: fraction :=
    List.exists_cons_of_ne_nil Nat.toDigits_ne_nil
  have hexponent : -(fraction.length : ℤ) + d.leadingExponent = d.exponent := by
    rw [Decimal.leadingExponent, hcons, List.length_cons]
    push_cast
    ring
  rw [hcons] at hdigits hvalue
  obtain ⟨hmark, hmantissa⟩ := fixed?_mantissa hdigits
  have hread := unsigned?_append_exponentText hmark hmantissa d.leadingExponent
  rw [hvalue] at hread
  dsimp only at hread
  rw [hexponent] at hread
  rw [Decimal.scientific, hcons]
  exact hread

example : unsigned? "1.25e-07".toList = some ⟨125, -9⟩ := by decide

/-- The diagnostic form of a decimal with a fraction is read as that decimal. -/
theorem unsigned?_debugDecimal (hd : d.exponent < 0) :
    unsigned? (Binary64.debugDecimal d) = some d := by
  unfold Binary64.debugDecimal
  split
  · rw [if_neg (by omega), List.append_nil, unsigned?_positional hd]
  · exact unsigned?_scientific d

/-! ### Signs -/

/-- An unsigned numeral does not begin with a sign. -/
private theorem unsigned?_cons {c : Char} (hc : c = '-' ∨ c = '+') (cs : List Char) :
    unsigned? (c :: cs) = none := by
  have hfixed (cs : List Char) : fixed? (c :: cs) = none := by
    rcases hc with rfl | rfl <;> rfl
  have htake : (c :: cs).takeWhile (· != 'e') = c :: cs.takeWhile (· != 'e') :=
    List.takeWhile_cons_of_pos (by rcases hc with rfl | rfl <;> rfl)
  rw [unsigned?, htake, hfixed, hfixed]
  split
  · rfl
  · rfl

private theorem rational?_of_unsigned? (hd : unsigned? cs = some d) :
    rational? cs = some d.value := by
  unfold rational? signed?
  split
  · simp [unsigned?_cons] at hd
  · simp [unsigned?_cons] at hd
  · dsimp only
    rw [hd, Option.map_some]

/-- A sign in front of a numeral is the sign of the number. -/
theorem rational?_signText (negative : Bool) (hd : unsigned? cs = some d) :
    rational? (Binary64.signText negative ++ cs) =
      some (if negative then -d.value else d.value) := by
  cases negative with
  | false => exact rational?_of_unsigned? hd
  | true =>
    have hread : rational? ('-' :: cs) = ((unsigned? cs).map Decimal.value).map (-·) := rfl
    rw [hd] at hread
    exact hread

end Numeral

end Reckon
