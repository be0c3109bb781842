import Mathlib.Computability.RegularExpressions
import Reckon.Proofs.Value.ReadBack

/-!
# Texts that hold a number

`Text.numberPattern` is the regular expression of the texts that count as a number: blanks around an
optional sign and digits with an optional point, `inf` or `NaN`. This module connects it to the two
places where numbers are read.

* `Binary64.ofChars?` reads a number exactly from the texts that match, and the number is the one
  that `Binary64.NumberText` describes (`Binary64.ofChars?_eq_some_iff`,
  `Text.mem_numberPattern_iff`).
* The numerals of the lexer are the texts of digits and points that match (`Token.spells_iff`), so
  the display form of every double matches, and reads back as it (`Binary64.numberText_display`).
-/

namespace Reckon

namespace Text

/-! ### Regular expressions of characters -/

/-- Any one of the characters. -/
def oneOf (cs : List Char) : RegularExpression Char := (cs.map .char).sum

/-- The characters one after the other. -/
def word (cs : List Char) : RegularExpression Char := (cs.map .char).prod

theorem mem_oneOf_iff {cs w : List Char} : w ∈ (oneOf cs).matches' ↔ ∃ c ∈ cs, w = [c] := by
  induction cs with
  | nil => exact iff_of_false (Set.notMem_empty w) (by simp)
  | cons c cs ih =>
    have hsum : oneOf (c :: cs) = .char c + oneOf cs := rfl
    rw [hsum, RegularExpression.matches'_add, Language.mem_add, ih, List.exists_mem_cons_iff]
    exact or_congr_left Iff.rfl

theorem mem_star_oneOf_iff {cs w : List Char} : w ∈ (oneOf cs).star.matches' ↔ ∀ c ∈ w, c ∈ cs := by
  rw [RegularExpression.matches'_star, Language.mem_kstar]
  constructor
  · rintro ⟨parts, rfl, hparts⟩ c hc
    obtain ⟨part, hpart, hc⟩ := List.mem_flatten.mp hc
    obtain ⟨d, hd, rfl⟩ := mem_oneOf_iff.mp (hparts part hpart)
    rwa [List.mem_singleton.mp hc]
  · intro h
    refine ⟨w.map ([·]), by rw [← List.flatMap_def, List.flatMap_singleton'], ?_⟩
    intro part hpart
    obtain ⟨c, hc, rfl⟩ := List.mem_map.mp hpart
    exact mem_oneOf_iff.mpr ⟨c, h c hc, rfl⟩

theorem mem_word_iff {cs w : List Char} : w ∈ (word cs).matches' ↔ w = cs := by
  induction cs generalizing w with
  | nil => exact Language.mem_one w
  | cons c cs ih =>
    have hprod : word (c :: cs) = .char c * word cs := rfl
    rw [hprod, RegularExpression.matches'_mul, Language.mem_mul]
    constructor
    · rintro ⟨front, rfl, back, hback, rfl⟩
      rw [ih.mp hback]
      rfl
    · rintro rfl
      exact ⟨[c], rfl, cs, ih.mpr rfl, rfl⟩

/-! ### The pattern -/

/-- Blanks, if any. -/
def blanks : RegularExpression Char := (oneOf [' ', '\t', '\n', '\r', '\x0b', '\x0c']).star

/-- Digits, if any. -/
def digits : RegularExpression Char := (oneOf "0123456789".toList).star

/-- Digits, at least one. -/
def someDigits : RegularExpression Char := oneOf "0123456789".toList * digits

/-- A number without a sign. -/
def unsignedPattern : RegularExpression Char :=
  someDigits * (1 + .char '.' * digits) + .char '.' * someDigits + word "inf".toList +
    word "NaN".toList

/-- A number with blanks around it. -/
def numberPattern : RegularExpression Char :=
  blanks * (1 + oneOf ['+', '-']) * unsignedPattern * blanks

private theorem mem_iff_toNat_mem {c : Char} {cs : List Char} :
    c ∈ cs ↔ c.toNat ∈ cs.map Char.toNat :=
  (List.mem_map_of_injective fun _ _ => Char.toNat_inj.mp).symm

theorem isDigit_iff_mem {c : Char} : c.isDigit ↔ c ∈ "0123456789".toList := by
  have hcodes : "0123456789".toList.map Char.toNat = [48, 49, 50, 51, 52, 53, 54, 55, 56, 57] := rfl
  have hdigit : c.isDigit ↔ 48 ≤ c.toNat ∧ c.toNat ≤ 57 := by
    simp [Char.isDigit, UInt32.le_iff_toNat_le]
  rw [mem_iff_toNat_mem, hcodes, hdigit]
  simp only [List.mem_cons, List.not_mem_nil, or_false]
  omega

private theorem isAsciiBlank_iff_mem {c : Char} :
    isAsciiBlank c ↔ c ∈ [' ', '\t', '\n', '\r', '\x0b', '\x0c'] := by
  have hcodes : [' ', '\t', '\n', '\r', '\x0b', '\x0c'].map Char.toNat =
      [32, 9, 10, 13, 11, 12] := rfl
  have hblank : isAsciiBlank c ↔ c.toNat = 32 ∨ 9 ≤ c.toNat ∧ c.toNat ≤ 13 := by
    simp [isAsciiBlank, UInt32.le_iff_toNat_le, ← UInt32.toNat_inj]
  rw [mem_iff_toNat_mem, hcodes, hblank]
  simp only [List.mem_cons, List.not_mem_nil, or_false]
  omega

theorem isBlank_of_isAsciiBlank {c : Char} (h : isAsciiBlank c) : isBlank c := by
  simp [isBlank, h]

private theorem mem_blanks_iff {w : List Char} : w ∈ blanks.matches' ↔ ∀ c ∈ w, isAsciiBlank c := by
  simp only [blanks, mem_star_oneOf_iff, isAsciiBlank_iff_mem]

theorem mem_digits_iff {w : List Char} : w ∈ digits.matches' ↔ ∀ c ∈ w, c.isDigit := by
  simp only [digits, mem_star_oneOf_iff, isDigit_iff_mem]

private theorem mem_someDigits_iff {w : List Char} :
    w ∈ someDigits.matches' ↔ w ≠ [] ∧ ∀ c ∈ w, c.isDigit := by
  rw [someDigits, RegularExpression.matches'_mul, Language.mem_mul]
  constructor
  · rintro ⟨front, hfront, back, hback, rfl⟩
    obtain ⟨c, hc, rfl⟩ := mem_oneOf_iff.mp hfront
    exact ⟨by simp, List.forall_mem_cons.mpr ⟨isDigit_iff_mem.mpr hc, mem_digits_iff.mp hback⟩⟩
  · rintro ⟨hne, hdigits⟩
    obtain ⟨c, rest, rfl⟩ := List.exists_cons_of_ne_nil hne
    obtain ⟨hc, hrest⟩ := List.forall_mem_cons.mp hdigits
    exact ⟨[c], mem_oneOf_iff.mpr ⟨c, isDigit_iff_mem.mp hc, rfl⟩, rest, mem_digits_iff.mpr hrest,
      rfl⟩

end Text

theorem Token.isAsciiBlank_eq_false_of_isNumeralChar {c : Char} (h : isNumeralChar c) :
    Text.isAsciiBlank c = false := by
  by_contra hblank
  rw [Bool.not_eq_false] at hblank
  have hskipped := Text.isBlank_of_isAsciiBlank hblank
  simp [isBlank_eq_false_of_isNumeralChar h] at hskipped

namespace Binary64

/-! ### What the texts stand for -/

/-- The text of a number without a sign, and the double that it stands for. -/
inductive Magnitude : List Char → Binary64 → Prop where
  | whole {digits : List Char} (hne : digits ≠ []) (hdigits : ∀ c ∈ digits, c.isDigit) :
      Magnitude digits (ofNumeral false digits [])
  | point {whole fraction : List Char} (hne : whole ≠ [] ∨ fraction ≠ [])
      (hwhole : ∀ c ∈ whole, c.isDigit) (hfraction : ∀ c ∈ fraction, c.isDigit) :
      Magnitude (whole ++ '.' :: fraction) (ofNumeral false whole fraction)
  | inf : Magnitude ['i', 'n', 'f'] (inf false)
  | nan : Magnitude ['N', 'a', 'N'] nan

/-- The same with an optional sign. -/
inductive Signed : List Char → Binary64 → Prop where
  | plain {text : List Char} {x : Binary64} (h : Magnitude text x) : Signed text x
  | plus {text : List Char} {x : Binary64} (h : Magnitude text x) : Signed ('+' :: text) x
  | minus {text : List Char} {x : Binary64} (h : Magnitude text x) : Signed ('-' :: text) x.neg

/-- The characters hold the number `x` and nothing else but blanks. -/
inductive NumberText : List Char → Binary64 → Prop where
  | intro {lead text trail : List Char} {x : Binary64}
      (hlead : ∀ c ∈ lead, Text.isAsciiBlank c) (htext : Signed text x)
      (htrail : ∀ c ∈ trail, Text.isAsciiBlank c) : NumberText (lead ++ text ++ trail) x

end Binary64

namespace Text

theorem mem_unsignedPattern_iff {w : List Char} :
    w ∈ unsignedPattern.matches' ↔ ∃ x, Binary64.Magnitude w x := by
  simp only [unsignedPattern, RegularExpression.matches'_add, RegularExpression.matches'_mul,
    RegularExpression.matches'_epsilon, RegularExpression.matches'_char, Language.mem_add,
    Language.mem_mul, mem_word_iff, mem_someDigits_iff, mem_digits_iff, Language.mem_one]
  constructor
  · rintro (((⟨whole, ⟨hne, hwhole⟩, back, rfl | ⟨_, rfl, fraction, hfraction, rfl⟩, rfl⟩ |
      ⟨_, rfl, fraction, ⟨hne, hfraction⟩, rfl⟩) | rfl) | rfl)
    · exact ⟨_, by simpa using .whole hne hwhole⟩
    · exact ⟨_, .point (.inl hne) hwhole hfraction⟩
    · exact ⟨_, .point (.inr hne) (List.forall_mem_nil _) hfraction⟩
    · exact ⟨_, .inf⟩
    · exact ⟨_, .nan⟩
  · rintro ⟨x, h⟩
    cases h with
    | whole hne hdigits => exact .inl (.inl (.inl ⟨w, ⟨hne, hdigits⟩, [], .inl rfl, by simp⟩))
    | @point whole fraction hne hwhole hfraction =>
      by_cases hempty : whole = []
      · subst hempty
        have hne : fraction ≠ [] := by simpa using hne
        exact .inl (.inl (.inr ⟨['.'], rfl, fraction, ⟨hne, hfraction⟩, rfl⟩))
      · exact .inl (.inl (.inl ⟨whole, ⟨hempty, hwhole⟩, '.' :: fraction,
          .inr ⟨['.'], rfl, fraction, hfraction, rfl⟩, rfl⟩))
    | inf => exact .inl (.inr rfl)
    | nan => exact .inr rfl

/-- **The pattern.** A text matches if it holds a number. -/
theorem mem_numberPattern_iff {w : List Char} :
    w ∈ numberPattern.matches' ↔ ∃ x, Binary64.NumberText w x := by
  simp only [numberPattern, RegularExpression.matches'_mul, RegularExpression.matches'_add,
    RegularExpression.matches'_epsilon, Language.mem_mul, Language.mem_add, Language.mem_one,
    mem_blanks_iff, mem_oneOf_iff, mem_unsignedPattern_iff]
  constructor
  · rintro ⟨_, ⟨_, ⟨lead, hlead, sign, hsign, rfl⟩, body, ⟨x, hbody⟩, rfl⟩, trail, htrail, rfl⟩
    have hsigned : ∃ y, Binary64.Signed (sign ++ body) y := by
      rcases hsign with rfl | ⟨c, hc, rfl⟩
      · exact ⟨x, .plain hbody⟩
      · simp only [List.mem_cons, List.not_mem_nil, or_false] at hc
        rcases hc with rfl | rfl
        · exact ⟨x, .plus hbody⟩
        · exact ⟨x.neg, .minus hbody⟩
    obtain ⟨y, hy⟩ := hsigned
    rw [List.append_assoc lead]
    exact ⟨y, .intro hlead hy htrail⟩
  · rintro ⟨x, h⟩
    obtain ⟨hlead, hsigned, htrail⟩ := h
    rename_i lead text trail
    refine ⟨lead ++ text, ?_, trail, htrail, rfl⟩
    cases hsigned with
    | plain h => exact ⟨lead, ⟨lead, hlead, [], .inl rfl, by simp⟩, text, ⟨_, h⟩, rfl⟩
    | @plus body _ h =>
      exact ⟨lead ++ ['+'], ⟨lead, hlead, ['+'], .inr ⟨'+', by simp, rfl⟩, rfl⟩, body, ⟨_, h⟩,
        by simp⟩
    | @minus body _ h =>
      exact ⟨lead ++ ['-'], ⟨lead, hlead, ['-'], .inr ⟨'-', by simp, rfl⟩, rfl⟩, body, ⟨_, h⟩,
        by simp⟩

end Text

namespace Binary64

/-! ### Signs -/

/-- The double with its sign flipped if it is to be negative. -/
def withSign (negative : Bool) (x : Binary64) : Binary64 := if negative then x.neg else x

private theorem neg_nearest (num den : Nat) :
    (nearest false num den).neg = nearest true num den := by
  unfold nearest
  dsimp only
  split
  · rfl
  · rfl

private theorem withSign_inf (negative : Bool) : withSign negative (inf false) = inf negative := by
  cases negative <;> rfl

private theorem withSign_nan (negative : Bool) : withSign negative nan = nan := by
  cases negative <;> rfl

/-- The sign of a numeral can be put on afterwards. -/
private theorem withSign_ofNumeral (negative : Bool) (whole fraction : List Char) :
    withSign negative (ofNumeral false whole fraction) = ofNumeral negative whole fraction := by
  cases negative with
  | false => rw [withSign, if_neg Bool.false_ne_true]
  | true => simp only [withSign, if_true, ofNumeral, ofDecimal_neg, ofRatio, neg_nearest]

/-! ### Reading -/

variable {rest : List Char}

/-- A number is read up to where it cannot go on. -/
theorem readUnsigned?_of_magnitude {body : List Char} {x : Binary64} (h : Magnitude body x)
    (hrest : ∀ c ∈ rest.head?, Token.isNumeralChar c = false) (negative : Bool) :
    readUnsigned? negative (body ++ rest) = some (withSign negative x, rest) := by
  have hdigit : ∀ c ∈ rest.head?, c.isDigit = false := by
    intro c hc
    exact (Bool.or_eq_false_iff.mp (hrest c hc)).1
  cases h with
  | whole hne hdigits =>
    obtain ⟨htake, hdrop⟩ := Text.span_append hdigits hdigit
    obtain ⟨d, ds, rfl⟩ := List.exists_cons_of_ne_nil hne
    -- A digit is not the first letter of `inf` or `NaN`, which are tried first.
    have hd := hdigits d (List.mem_cons_self ..)
    unfold readUnsigned?
    split
    next heq =>
      obtain ⟨rfl, -⟩ := List.cons.inj heq
      simp at hd
    next heq =>
      obtain ⟨rfl, -⟩ := List.cons.inj heq
      simp at hd
    next =>
      simp only [htake, hdrop, withSign_ofNumeral]
      split
      next => simp [Token.isNumeralChar] at hrest
      next => simp
  | @point whole fraction hne hwhole hfraction =>
    have hpoint : ∀ c ∈ ('.' :: (fraction ++ rest)).head?, c.isDigit = false := by simp
    obtain ⟨htake, hdrop⟩ := Text.span_append hwhole hpoint
    obtain ⟨htake', hdrop'⟩ := Text.span_append hfraction hdigit
    rw [List.append_assoc, List.cons_append]
    unfold readUnsigned?
    split
    next heq => simp [heq] at hdrop
    next heq => simp [heq] at hdrop
    next =>
      have hsome : ¬(whole.isEmpty && fraction.isEmpty) := by simpa [imp_iff_not_or] using hne
      simp only [htake, hdrop, htake', hdrop', withSign_ofNumeral, if_neg hsome]
  | inf =>
    rw [withSign_inf]
    rfl
  | nan =>
    rw [withSign_nan]
    rfl

/-- What is read is a number. -/
private theorem exists_magnitude_of_readUnsigned? {negative : Bool} {cs : List Char} {x : Binary64}
    (h : readUnsigned? negative cs = some (x, rest)) :
    ∃ body y, cs = body ++ rest ∧ Magnitude body y ∧ x = withSign negative y := by
  unfold readUnsigned? at h
  split at h
  next tail =>
    obtain ⟨rfl, rfl⟩ : inf negative = x ∧ tail = rest := by simpa using h
    exact ⟨_, _, rfl, .inf, (withSign_inf negative).symm⟩
  next tail =>
    obtain ⟨rfl, rfl⟩ : nan = x ∧ tail = rest := by simpa using h
    exact ⟨_, _, rfl, .nan, (withSign_nan negative).symm⟩
  next =>
    have hwhole : ∀ c ∈ cs.takeWhile Char.isDigit, c.isDigit := fun c => List.mem_takeWhile_imp
    have hsplit : cs.takeWhile Char.isDigit ++ cs.dropWhile Char.isDigit = cs :=
      List.takeWhile_append_dropWhile
    dsimp only at h
    split at h
    next tail hdrop =>
      have hfraction : ∀ c ∈ tail.takeWhile Char.isDigit, c.isDigit :=
        fun c => List.mem_takeWhile_imp
      split at h
      next => simp at h
      next hsome =>
        obtain ⟨rfl, rfl⟩ : _ = x ∧ _ = rest := by simpa using h
        refine ⟨_, _, ?_, .point ?_ hwhole hfraction, (withSign_ofNumeral _ _ _).symm⟩
        · rw [List.append_assoc, List.cons_append, List.takeWhile_append_dropWhile, ← hdrop, hsplit]
        · simpa [imp_iff_not_or] using hsome
    next =>
      split at h
      next => simp at h
      next hsome =>
        obtain ⟨rfl, rfl⟩ : _ = x ∧ _ = rest := by simpa using h
        exact ⟨_, _, hsplit.symm, .whole (by simpa using hsome) hwhole,
          (withSign_ofNumeral _ _ _).symm⟩

variable {text : List Char} {x : Binary64}

/-- There need not be blanks. -/
theorem NumberText.of_signed (h : Signed text x) : NumberText text x := by
  have hbare := NumberText.intro (List.forall_mem_nil _) h (List.forall_mem_nil _)
  rwa [List.nil_append, List.append_nil] at hbare

theorem Magnitude.exists_cons (h : Magnitude text x) :
    ∃ c rest, text = c :: rest ∧ (Token.isNumeralChar c ∨ c = 'i' ∨ c = 'N') := by
  cases h with
  | whole hne hdigits =>
    obtain ⟨c, rest, rfl⟩ := List.exists_cons_of_ne_nil hne
    have hc := hdigits c (List.mem_cons_self ..)
    exact ⟨c, rest, rfl, .inl (by simp [Token.isNumeralChar, hc])⟩
  | @point whole fraction _ hwhole =>
    rcases whole with _ | ⟨c, rest⟩
    · exact ⟨'.', fraction, rfl, .inl rfl⟩
    · have hc := hwhole c (List.mem_cons_self ..)
      exact ⟨c, _, rfl, .inl (by simp [Token.isNumeralChar, hc])⟩
  | inf => exact ⟨_, _, rfl, .inr (.inl rfl)⟩
  | nan => exact ⟨_, _, rfl, .inr (.inr rfl)⟩

private theorem readSigned?_of_signed (h : Signed text x)
    (hrest : ∀ c ∈ rest.head?, Token.isNumeralChar c = false) :
    readSigned? (text ++ rest) = some (x, rest) := by
  cases h with
  | plain h =>
    have hread := readUnsigned?_of_magnitude h hrest false
    obtain ⟨c, tail, rfl, hc⟩ := h.exists_cons
    rw [List.cons_append] at hread ⊢
    unfold readSigned?
    split
    next heq =>
      obtain ⟨rfl, -⟩ := List.cons.inj heq
      exact absurd hc (by decide)
    next heq =>
      obtain ⟨rfl, -⟩ := List.cons.inj heq
      exact absurd hc (by decide)
    next => exact hread
  | plus h => exact readUnsigned?_of_magnitude h hrest false
  | minus h => exact readUnsigned?_of_magnitude h hrest true

private theorem exists_signed_of_readSigned? {cs : List Char}
    (h : readSigned? cs = some (x, rest)) : ∃ text, cs = text ++ rest ∧ Signed text x := by
  unfold readSigned? at h
  split at h
  next =>
    obtain ⟨body, y, rfl, hbody, rfl⟩ := exists_magnitude_of_readUnsigned? h
    exact ⟨'+' :: body, rfl, .plus hbody⟩
  next =>
    obtain ⟨body, y, rfl, hbody, rfl⟩ := exists_magnitude_of_readUnsigned? h
    exact ⟨'-' :: body, rfl, .minus hbody⟩
  next =>
    obtain ⟨body, y, rfl, hbody, rfl⟩ := exists_magnitude_of_readUnsigned? h
    exact ⟨body, rfl, .plain hbody⟩

theorem Signed.exists_cons (h : Signed text x) :
    ∃ c rest, text = c :: rest ∧ Text.isAsciiBlank c = false := by
  cases h with
  | plain h =>
    obtain ⟨c, rest, rfl, hc⟩ := h.exists_cons
    refine ⟨c, rest, rfl, ?_⟩
    rcases hc with hc | rfl | rfl
    · exact Token.isAsciiBlank_eq_false_of_isNumeralChar hc
    · rfl
    · rfl
  | plus => exact ⟨'+', _, rfl, rfl⟩
  | minus => exact ⟨'-', _, rfl, rfl⟩

/-- **What a text holds.** `ofChars?` reads a number if the characters hold one, and that one. -/
theorem ofChars?_eq_some_iff {cs : List Char} : ofChars? cs = some x ↔ NumberText cs x := by
  constructor
  · intro h
    unfold ofChars? at h
    split at h
    next y trail hread =>
      split at h
      next htrail =>
        obtain rfl : y = x := by simpa using h
        obtain ⟨text, hdrop, htext⟩ := exists_signed_of_readSigned? hread
        have hsplit : cs.takeWhile Text.isAsciiBlank ++ text ++ trail = cs := by
          rw [List.append_assoc, ← hdrop, List.takeWhile_append_dropWhile]
        rw [← hsplit]
        exact .intro (fun c => List.mem_takeWhile_imp) htext (List.all_eq_true.mp htrail)
      next => simp at h
    next => simp at h
  · rintro ⟨hlead, htext, htrail⟩
    rename_i lead text trail
    have hrest : ∀ c ∈ trail.head?, Token.isNumeralChar c = false := by
      intro c hc
      by_contra hnumeral
      rw [Bool.not_eq_false] at hnumeral
      have hblank := htrail c (List.mem_of_mem_head? hc)
      simp [Token.isAsciiBlank_eq_false_of_isNumeralChar hnumeral] at hblank
    have hdrop : (lead ++ text ++ trail).dropWhile Text.isAsciiBlank = text ++ trail := by
      obtain ⟨c, rest, rfl, hc⟩ := htext.exists_cons
      rw [List.append_assoc, List.dropWhile_append_of_pos hlead, List.cons_append,
        List.dropWhile_cons_of_neg (by simp [hc])]
    rw [ofChars?, hdrop, readSigned?_of_signed htext hrest]
    simpa using htrail

end Binary64

namespace Token

/-! ### Numerals of the lexer -/

variable {text : List Char} {x : Binary64}

private theorem numeral_eq_ok_iff :
    numeral text = .ok x ↔ text.count '.' ≤ 1 ∧ text ≠ ['.'] ∧ .ofNumeral false
      (text.takeWhile Char.isDigit) ((text.dropWhile Char.isDigit).drop 1) = x := by
  unfold numeral
  split
  next hbad =>
    refine iff_of_false (by simp) fun ⟨hcount, hpoint, _⟩ => ?_
    simp [Nat.not_lt.mpr hcount, hpoint] at hbad
  next hgood =>
    obtain ⟨hcount, hpoint⟩ : text.count '.' ≤ 1 ∧ text ≠ ['.'] := by simpa using hgood
    simp [hcount, hpoint]

/-- Digits and at most one point, but not the point alone. -/
private theorem magnitude_of_numeral (hne : text ≠ []) (hchars : ∀ c ∈ text, isNumeralChar c)
    (hnumeral : numeral text = .ok x) : Binary64.Magnitude text x := by
  obtain ⟨hcount, hpoint, rfl⟩ := numeral_eq_ok_iff.mp hnumeral
  have hwhole : ∀ c ∈ text.takeWhile Char.isDigit, c.isDigit := fun c => List.mem_takeWhile_imp
  have hsplit : text.takeWhile Char.isDigit ++ text.dropWhile Char.isDigit = text :=
    List.takeWhile_append_dropWhile
  have hhead := List.head?_dropWhile_not Char.isDigit text
  generalize text.takeWhile Char.isDigit = whole at *
  generalize text.dropWhile Char.isDigit = behind at *
  subst hsplit
  rcases behind with _ | ⟨c, fraction⟩
  · rw [List.append_nil] at hne ⊢
    exact .whole hne hwhole
  · have hdigit_or : ∀ d ∈ c :: fraction, d.isDigit ∨ d = '.' := by
      intro d hd
      simpa [isNumeralChar] using hchars d (List.mem_append_right _ hd)
    obtain rfl : c = '.' := by
      simpa [show c.isDigit = false from hhead] using hdigit_or c (List.mem_cons_self ..)
    have hfraction : ∀ d ∈ fraction, d.isDigit := by
      intro d hd
      refine (hdigit_or d (List.mem_cons_of_mem _ hd)).resolve_right ?_
      rintro rfl
      -- A second point in the fraction.
      have hpos := List.count_pos_iff.mpr hd
      rw [List.count_append, List.count_cons_self] at hcount
      omega
    refine .point ?_ hwhole hfraction
    by_contra hempty
    rw [not_or, not_not, not_not] at hempty
    exact hpoint (by rw [hempty.1, hempty.2, List.nil_append])

/-- **Numerals.** The lexer and the pattern have the same numerals, with the same values. -/
theorem spells_iff :
    Spells text x ↔ Binary64.Magnitude text x ∧ ∀ c ∈ text, isNumeralChar c := by
  constructor
  · rintro ⟨hne, hchars, hnumeral⟩
    exact ⟨magnitude_of_numeral hne hchars hnumeral, hchars⟩
  · rintro ⟨h, hchars⟩
    cases h with
    | whole hne hdigits => exact spells_whole _ hne hdigits
    | point hne hwhole hfraction => exact spells_fraction _ _ hne hwhole hfraction
    | inf => exact absurd (hchars 'i' (by simp)) (by decide)
    | nan => exact absurd (hchars 'N' (by simp)) (by decide)

end Token

namespace Binary64

/-! ### Display forms -/

/-- **Display forms hold their number.** -/
theorem numberText_display (x : Binary64) : NumberText x.displayChars x := by
  have hsigned : Signed x.displayChars x := by
    cases x with
    | nan => exact .plain .nan
    | inf s =>
      cases s with
      | false => exact .plain .inf
      | true => exact .minus .inf
    | finite s n h =>
      obtain ⟨text, htext, hspells⟩ := exists_displayChars s n h
      have hmagnitude := (Token.spells_iff.mp hspells).1
      rw [htext]
      cases s with
      | false => exact .plain hmagnitude
      | true => exact .minus hmagnitude
  exact .of_signed hsigned

end Binary64

end Reckon
