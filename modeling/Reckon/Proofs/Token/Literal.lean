import Mathlib.Data.List.TakeWhile
import Reckon.Proofs.Decimal.Layout
import Reckon.Proofs.Decimal.ReadBack
import Reckon.Token.Lexer

/-!
# Lexing literals

What a literal is written as, the lexer reads as one token.

* `Token.Spells` says that a text is a numeral with a given value; the digits of a natural number
  and a decimal with its places written out are numerals with their own value
  (`Token.spells_toDigits`, `Token.spells_positional`).
* The bodies of string and character literals are inverses of `Text.escape`, whatever the quote
  (`Token.stringBody_escape`, `Token.charBody_escapeChar`).
* A text that is one token, or a minus and one token, lexes to that (`Token.lexFrom_of_scan`,
  `Token.lexFrom_minus`).
-/

namespace Reckon

namespace Token

/-! ### Numerals -/

/-- The text is a numeral with the value `x`. -/
structure Spells (text : List Char) (x : Binary64) : Prop where
  ne_nil : text ≠ []
  isNumeralChar : ∀ c ∈ text, isNumeralChar c
  numeral : numeral text = .ok x

private theorem count_point {whole : List Char} (h : ∀ c ∈ whole, c.isDigit) :
    whole.count '.' = 0 := by
  refine List.count_eq_zero.mpr fun hmem => ?_
  simpa using h '.' hmem

private theorem isNumeralChar_of_isDigit {c : Char} (h : c.isDigit) : isNumeralChar c := by
  simp [isNumeralChar, h]

theorem spells_whole (whole : List Char) (hne : whole ≠ []) (h : ∀ c ∈ whole, c.isDigit) :
    Spells whole (.ofNumeral false whole []) where
  ne_nil := hne
  isNumeralChar c hc := isNumeralChar_of_isDigit (h c hc)
  numeral := by
    have hpoint : whole ≠ ['.'] := by
      rintro rfl
      simpa using h '.'
    have htake : whole.takeWhile Char.isDigit = whole := List.takeWhile_eq_self_iff.mpr h
    have hdrop : whole.dropWhile Char.isDigit = [] := List.dropWhile_eq_nil_iff.mpr h
    simp [Token.numeral, count_point h, hpoint, htake, hdrop]

theorem spells_fraction (whole fraction : List Char) (hne : whole ≠ [] ∨ fraction ≠ [])
    (hwhole : ∀ c ∈ whole, c.isDigit)
    (hfraction : ∀ c ∈ fraction, c.isDigit) :
    Spells (whole ++ '.' :: fraction) (.ofNumeral false whole fraction) where
  ne_nil := by simp
  isNumeralChar c hc := by
    rcases List.mem_append.mp hc with hc | hc
    · exact isNumeralChar_of_isDigit (hwhole c hc)
    · rcases List.mem_cons.mp hc with rfl | hc
      · rfl
      · exact isNumeralChar_of_isDigit (hfraction c hc)
  numeral := by
    have hcount : (whole ++ '.' :: fraction).count '.' = 1 := by
      simp [count_point hwhole, count_point hfraction]
    have hpoint : whole ++ '.' :: fraction ≠ ['.'] := by
      simpa [List.append_eq_cons_iff, imp_iff_not_or] using hne
    have hend : ∀ c ∈ ('.' :: fraction).head?, c.isDigit = false := by simp
    obtain ⟨htake, hdrop⟩ := Text.span_append hwhole hend
    simp [Token.numeral, hcount, hpoint, htake, hdrop]

/-- The digits of a natural number spell it. -/
theorem spells_toDigits (n : Nat) : Spells (Nat.toDigits 10 n) (.ofDecimal false n 0) := by
  have hspells := spells_whole (Nat.toDigits 10 n) Nat.toDigits_ne_nil
    fun _ => Decimal.isDigit_of_mem_toDigits
  have hvalue : Binary64.ofNumeral false (Nat.toDigits 10 n) [] = .ofDecimal false n 0 := by
    rw [Binary64.ofNumeral, List.append_nil, Nat.ofDigitChars_ten_toDigits]
    rfl
  rwa [hvalue] at hspells

/-- **Numerals.** A decimal with its places written out spells its value. -/
theorem spells_positional (d : Decimal) :
    Spells d.positional (.ofDecimal false d.coefficient d.exponent) := by
  rcases Int.lt_or_le d.exponent 0 with hneg | hpos
  · obtain ⟨whole, fraction, htext, hsplits⟩ := Decimal.exists_splits hneg
    have hspells := spells_fraction whole fraction (.inl hsplits.whole_ne_nil)
      (fun c hc => hsplits.isDigit c (List.mem_append_left _ hc))
      (fun c hc => hsplits.isDigit c (List.mem_append_right _ hc))
    rwa [Binary64.ofNumeral, hsplits.ofDigitChars, ← hsplits.exponent_eq, ← htext] at hspells
  · obtain ⟨places, hplaces⟩ := Int.eq_ofNat_of_zero_le hpos
    have hvalue : Nat.ofDigitChars 10 d.digits 0 = d.coefficient := Nat.ofDigitChars_ten_toDigits
    rw [Decimal.positional_of_nonneg hpos, hplaces, Int.toNat_natCast,
      ← Binary64.ofDecimal_mul_tenPow]
    have hspells := spells_whole (d.digits ++ List.replicate places '0')
      (by simp [Decimal.digits, Nat.toDigits_ne_nil])
      fun c hc => (List.mem_append.mp hc).elim Decimal.isDigit_of_mem_toDigits
        Decimal.isDigit_of_mem_replicate
    rw [Binary64.ofNumeral, List.append_nil, Nat.ofDigitChars_append, hvalue,
      Nat.ofDigitChars_replicate_zero, Nat.mul_comm] at hspells
    exact hspells

/-! ### Quoted texts -/

/-- What a quoted character is written as: a backslash and a letter that stands for it, or itself if
it is neither the quote nor a backslash. -/
theorem escapeChar_cases (quote : Char) (hquote : Text.unescape? quote = some quote) (c : Char) :
    (∃ letter, Text.escapeChar (· == quote) c = ['\\', letter] ∧ Text.unescape? letter = some c) ∨
      (Text.escapeChar (· == quote) c = [c] ∧ c ≠ quote ∧ c ≠ '\\') := by
  cases hletter : Text.escapeLetter? c with
  | some letter =>
    exact .inl ⟨letter, by simp [Text.escapeChar, hletter], Text.unescape?_of_escapeLetter? hletter⟩
  | none =>
    by_cases hc : c = quote
    · subst hc
      exact .inl ⟨c, by simp [Text.escapeChar, hletter], hquote⟩
    · refine .inr ⟨by simp [Text.escapeChar, hletter, hc], hc, ?_⟩
      rintro rfl
      simp [Text.escapeLetter?] at hletter

theorem stringBody_unit {letter c : Char} {cs rest : List Char} {offset past : Nat}
    (hletter : Text.unescape? letter = some c) (h : stringBody (offset + 2) rest = .ok (cs, past)) :
    stringBody offset ('\\' :: letter :: rest) = .ok (c :: cs, past) := by
  simp [stringBody, hletter, h]

theorem stringBody_plain {c : Char} {cs rest : List Char} {offset past : Nat} (hquote : c ≠ '"')
    (hslash : c ≠ '\\') (h : stringBody (offset + 1) rest = .ok (cs, past)) :
    stringBody offset (c :: rest) = .ok (c :: cs, past) := by
  rw [stringBody]
  · simp [hquote, h]
  · simp [hslash]
  · simp [hslash]

/-- **String bodies.** Up to its closing quote, a string body is read as the characters it was
written for. -/
theorem stringBody_escape (cs rest : List Char) (offset : Nat) :
    stringBody offset (Text.escape (· == '"') cs ++ '"' :: rest) =
      .ok (cs, offset + (Text.escape (· == '"') cs).length + 1) := by
  induction cs generalizing offset with
  | nil => simp [Text.escape, stringBody]
  | cons c cs ih =>
    have hsplit : Text.escape (· == '"') (c :: cs) =
        Text.escapeChar (· == '"') c ++ Text.escape (· == '"') cs := List.flatMap_cons
    rw [hsplit, List.append_assoc, List.length_append]
    rcases escapeChar_cases '"' rfl c with ⟨letter, hwrite, hread⟩ | ⟨hwrite, hquote, hslash⟩
    · rw [hwrite]
      refine (stringBody_unit hread (ih (offset + 2))).trans ?_
      simp only [List.length_cons, List.length_nil, Nat.add_assoc, Nat.zero_add, Nat.reduceAdd]
    · rw [hwrite]
      refine (stringBody_plain hquote hslash (ih (offset + 1))).trans ?_
      simp only [List.length_cons, List.length_nil, Nat.add_assoc, Nat.zero_add]

/-- **Character bodies.** Up to its closing quote, a character body is read as the character it was
written for. -/
theorem charBody_escapeChar (c : Char) (rest : List Char) :
    charBody (Text.escapeChar (· == '\'') c ++ '\'' :: rest) =
      .ok (c, (Text.escapeChar (· == '\'') c).length + 2) := by
  rcases escapeChar_cases '\'' rfl c with ⟨letter, hwrite, hread⟩ | ⟨hwrite, hquote, hslash⟩
  · rw [hwrite]
    simp [charBody, hread, closeChar_eq]
  · rw [hwrite, List.singleton_append, charBody]
    · simp [hquote, closeChar_eq]
    · simp [hslash]
    · simp [hslash]

/-! ### Sources of one or two tokens -/

theorem toNat_of_isNumeralChar {c : Char} (h : isNumeralChar c) :
    46 ≤ c.toNat ∧ c.toNat ≤ 57 := by
  rcases (Bool.or_eq_true _ _).mp h with hdigit | hpoint
  · simp only [Char.isDigit, Bool.and_eq_true, decide_eq_true_eq, UInt32.le_iff_toNat_le] at hdigit
    exact ⟨Nat.le_trans (by decide) hdigit.1, hdigit.2⟩
  · rw [beq_iff_eq] at hpoint
    subst hpoint
    decide

/-- No visible character of ASCII is a blank. -/
theorem isBlank_eq_false_of_visible {c : Char} (h : 0x20 < c.toNat) (h' : c.toNat < 0x7f) :
    Text.isBlank c = false := by
  simp only [Text.isBlank, Text.isAsciiBlank, UInt32.le_iff_toNat_le, UInt32.reduceToNat,
    Char.toNat_val, Bool.or_eq_false_iff, beq_eq_false_iff_ne, ne_eq, ← UInt32.toNat_inj,
    Bool.and_eq_false_imp, decide_eq_true_eq, decide_eq_false_iff_not, Nat.not_le]
  omega

theorem isBlank_eq_false_of_isNumeralChar {c : Char} (h : isNumeralChar c) :
    Text.isBlank c = false := by
  have hrange := toNat_of_isNumeralChar h
  exact isBlank_eq_false_of_visible (by omega) (by omega)

theorem lexFrom_nil (pos : Nat) : lexFrom pos [] = .ok [⟨.endOfInput, pos⟩] := by
  rw [lexFrom.eq_def]

/-- A token, and the tokens of what follows it. -/
theorem lexFrom_cons {c : Char} {rest : List Char} {lexeme : Lexeme} {tokens : List Token}
    {pos width : Nat} (hblank : Text.isBlank c = false) (hscan : scan c rest = .ok (lexeme, width))
    (h : lexFrom (pos + width) (rest.drop (width - 1)) = .ok tokens) :
    lexFrom pos (c :: rest) = .ok (⟨lexeme, pos⟩ :: tokens) := by
  -- The equation for a nonempty source alone takes seconds to derive; this one covers both.
  rw [lexFrom.eq_def]
  simp [hblank, hscan, h]

/-- A source that is one token. -/
theorem lexFrom_of_scan {c : Char} {rest : List Char} {lexeme : Lexeme}
    (hblank : Text.isBlank c = false) (h : scan c rest = .ok (lexeme, rest.length + 1))
    (pos : Nat) :
    lexFrom pos (c :: rest) = .ok [⟨lexeme, pos⟩, ⟨.endOfInput, pos + (rest.length + 1)⟩] := by
  refine lexFrom_cons hblank h ?_
  rw [Nat.add_sub_cancel, List.drop_length]
  exact lexFrom_nil _

/-- A minus in front of other tokens. -/
theorem lexFrom_minus {cs : List Char} {tokens : List Token} {pos : Nat}
    (h : lexFrom (pos + 1) cs = .ok tokens) :
    lexFrom pos ('-' :: cs) = .ok (⟨.symbol .minus, pos⟩ :: tokens) := by
  have hscan : scan '-' cs = .ok (.symbol .minus, 1) := by
    cases cs <;> rfl
  exact lexFrom_cons (by decide) hscan h

/-- Digits and points are scanned as a numeral to the last. -/
theorem scan_of_isNumeralChar {c : Char} {rest : List Char} (h : ∀ d ∈ c :: rest, isNumeralChar d) :
    scan c rest = (numeral (c :: rest)).map fun x => (.number x, rest.length + 1) := by
  obtain ⟨hc, hrest⟩ := List.forall_mem_cons.mp h
  have hrun : rest.takeWhile isNumeralChar = rest := List.takeWhile_eq_self_iff.mpr hrest
  rcases hvalue : numeral (c :: rest) with err | x <;> simp [scan, hc, hrun, hvalue, Except.map]

theorem lexFrom_spells {text : List Char} {x : Binary64} (h : Spells text x) (pos : Nat) :
    lexFrom pos text = .ok [⟨.number x, pos⟩, ⟨.endOfInput, pos + text.length⟩] := by
  obtain ⟨c, rest, rfl⟩ := List.exists_cons_of_ne_nil h.ne_nil
  have hc := h.isNumeralChar c (List.mem_cons_self ..)
  refine lexFrom_of_scan (isBlank_eq_false_of_isNumeralChar hc) ?_ pos
  rw [scan_of_isNumeralChar h.isNumeralChar, h.numeral]
  rfl

theorem lexFrom_string (cs : List Char) (pos : Nat) :
    ∃ stop, lexFrom pos ('"' :: (Text.escape (· == '"') cs ++ ['"'])) =
      .ok [⟨.string (String.ofList cs), pos⟩, ⟨.endOfInput, stop⟩] := by
  refine ⟨_, lexFrom_of_scan (by decide) ?_ pos⟩
  have hplain : isNumeralChar '"' = false ∧ isIdentifierStart '"' = false := by decide
  simp only [scan, hplain, stringBody_escape cs [] 1]
  simp [Nat.add_comm]

theorem lexFrom_char (c : Char) (pos : Nat) :
    ∃ stop, lexFrom pos ('\'' :: (Text.escape (· == '\'') [c] ++ ['\''])) =
      .ok [⟨.char c, pos⟩, ⟨.endOfInput, stop⟩] := by
  refine ⟨_, lexFrom_of_scan (by decide) ?_ pos⟩
  have hescape : Text.escape (· == '\'') [c] = Text.escapeChar (· == '\'') c :=
    List.flatMap_singleton ..
  have hplain : isNumeralChar '\'' = false ∧ isIdentifierStart '\'' = false := by decide
  rw [hescape]
  simp only [scan, hplain, charBody_escapeChar c []]
  simp

end Token

end Reckon
