import Reckon.Proofs.Token.Shape
import Reckon.Proofs.Token.Tiling

/-!
# Blanks between tokens

A blank separates tokens as a semicolon does, and is none itself. So the tokens of two texts with
one of these between them are the tokens of the first, a semicolon if that is what stands there, and
the tokens of the second, further right; and what is wrong with the second text is wrong with the
whole, further right (`Token.lex_append_separator`).

What tokens say does not depend on where they stand (`Token.reading`). Hence blanks between tokens
can be exchanged for others, and added in front of a token, without a change to what is read
(`Token.Respaced.reading_eq`). Where blanks are added without any having been there, the text is cut
in front of the token first (`Token.Lexes.cut`), so that the tokens on both sides are known.
-/

namespace Reckon

namespace Token

/-! ### Blanks separate -/

theorem toNat_of_isIdentifierStart {c : Char} (h : isIdentifierStart c) :
    c.toNat = 36 ∨ 65 ≤ c.toNat ∧ c.toNat ≤ 122 := by
  rw [isIdentifierStart_eq] at h
  simp only [Text.isNameStart, Bool.or_eq_true, Bool.and_eq_true, decide_eq_true_eq,
    beq_iff_eq] at h
  change ((65 ≤ c.toNat ∧ c.toNat ≤ 90 ∨ 97 ≤ c.toNat ∧ c.toNat ≤ 122) ∨ c = '_') ∨ c = '$' at h
  rcases h with (h | rfl) | rfl
  · omega
  · decide
  · decide

theorem isBlank_eq_false_of_isIdentifierChar {c : Char} (h : isIdentifierChar c) :
    Text.isBlank c = false := by
  rcases (Bool.or_eq_true _ _).mp h with hstart | hdigit
  · have hrange := toNat_of_isIdentifierStart hstart
    exact isBlank_eq_false_of_visible (by omega) (by omega)
  · exact isBlank_eq_false_of_isNumeralChar (by simp [isNumeralChar, hdigit])

private theorem separates_of_isBlank {c : Char} (h : Text.isBlank c) : Separates c where
  isNumeralChar_eq := by
    by_contra hc
    rw [Bool.not_eq_false] at hc
    simp [isBlank_eq_false_of_isNumeralChar hc] at h
  isIdentifierChar_eq := by
    by_contra hc
    rw [Bool.not_eq_false] at hc
    simp [isBlank_eq_false_of_isIdentifierChar hc] at h
  ofPair?_eq := by
    refine ofPair?_eq_none fun hc => ?_
    simp only [List.mem_cons, List.not_mem_nil, or_false] at hc
    rcases hc with rfl | rfl | rfl | rfl <;> exact absurd h (by decide)

/-- Blanks in front of a text only move it. -/
theorem lexFrom_blanks {gap : List Char} (hgap : ∀ c ∈ gap, Text.isBlank c) (pos : Nat)
    (cs : List Char) : lexFrom pos (gap ++ cs) = lexFrom (pos + gap.length) cs := by
  induction gap generalizing pos with
  | nil => rfl
  | cons c rest ih =>
    obtain ⟨hc, hrest⟩ := List.forall_mem_cons.mp hgap
    rw [List.cons_append, lexFrom_blank hc, ih hrest, List.length_cons, Nat.add_assoc,
      Nat.add_comm 1]

/-- **Texts with a blank between them.** If the first one has tokens, the whole has these and the
tokens of the second; otherwise it has the error of the second. -/
theorem lex_append_blank {a : String} {body : List Token} {c : Char}
    (ha : lex a = .ok (body ++ [⟨.endOfInput, a.length⟩])) (hc : Text.isBlank c) (b : String) :
    lex (a ++ String.singleton c ++ b) =
      ((lex b).map fun ts => body ++ ts.map (shift (a.length + 1))).mapError
        (LexError.shift (a.length + 1)) := by
  obtain ⟨body', hbody, -, hread⟩ := exists_lexFrom_append (separates_of_isBlank hc) ha
  rw [Nat.zero_add, String.length_toList] at hbody hread
  obtain rfl : body = body' := List.append_cancel_right hbody
  have hchars : (a ++ String.singleton c ++ b).toList = a.toList ++ c :: b.toList := by
    simp [String.toList_append]
  have hshift := lexFrom_add (a.length + 1) 0 b.toList
  rw [Nat.add_zero] at hshift
  rw [lex, hchars, hread, lexFrom_blank hc, hshift, ← lex]
  cases lex b <;> rfl

/-! ### What is read -/

/-- What the tokens of a text say, or what is wrong with it, wherever that stands. -/
def reading (source : String) : Except LexFault (List Lexeme) :=
  ((lex source).map (·.map lexeme)).mapError LexError.fault

/-- It does not matter where the text stands. -/
private theorem reading_eq (source : String) (pos : Nat) : reading source =
    ((lexFrom pos source.toList).map (·.map lexeme)).mapError LexError.fault := by
  have hmove := lexFrom_add pos 0 source.toList
  rw [Nat.add_zero, ← lex] at hmove
  rw [hmove, reading]
  cases lex source <;> simp [Except.map, Except.mapError, LexError.shift, shift, Function.comp_def]

/-- Blanks in front of a text do not change what is read. -/
theorem reading_blanks {gap : List Char} (hgap : ∀ c ∈ gap, Text.isBlank c) (b : String) :
    reading (String.ofList gap ++ b) = reading b := by
  rw [reading_eq b (0 + gap.length), ← lexFrom_blanks hgap, reading, lex, String.toList_append,
    String.toList_ofList]

/-- The text is not empty, and all of it is blank. -/
def IsGap (gap : String) : Prop := gap ≠ "" ∧ ∀ c ∈ gap.toList, Text.isBlank c

instance : DecidablePred IsGap := fun gap =>
  decidable_of_iff (gap ≠ "" ∧ gap.toList.all Text.isBlank) (by simp [IsGap])

/-- **Texts with a gap between them.** What is read does not depend on the gap. -/
theorem reading_gap {a gap : String} {body : List Token}
    (ha : lex a = .ok (body ++ [⟨.endOfInput, a.length⟩])) (hgap : IsGap gap) (b : String) :
    reading (a ++ gap ++ b) = (reading b).map (body.map lexeme ++ ·) := by
  obtain ⟨hne, hblank⟩ := hgap
  obtain ⟨c, rest, hchars⟩ : ∃ c rest, gap.toList = c :: rest :=
    List.exists_cons_of_ne_nil (by simpa using hne)
  rw [hchars, List.forall_mem_cons] at hblank
  -- The first blank separates, and the others stand in front of the second text.
  have hgap : a ++ gap ++ b = a ++ String.singleton c ++ (String.ofList rest ++ b) := by
    apply String.toList_injective
    simp [String.toList_append, hchars]
  rw [← reading_blanks hblank.2 b, hgap, reading, lex_append_blank ha hblank.1, reading]
  cases lex (String.ofList rest ++ b) <;>
    simp [Except.map, Except.mapError, LexError.shift, shift, Function.comp_def]

/-- `Respaced source source'`: up to gaps, the two texts are made of the same parts, all but the
last of which have tokens of their own. In the second one gaps may stand where there are none in the
first, as long as they come in front of a token. -/
inductive Respaced : String → String → Prop where
  | refl (source : String) : Respaced source source
  | gap {a b b' gap gap' : String} {tokens : List Token} (ha : lex a = .ok tokens)
      (hgap : IsGap gap) (hgap' : IsGap gap') (h : Respaced b b') :
      Respaced (a ++ gap ++ b) (a ++ gap' ++ b')
  | insert {a b b' gap : String} {tokens : List Token} (hab : lex (a ++ b) = .ok tokens)
      (htoken : ∃ t ∈ tokens, t.pos = a.length) (hgap : IsGap gap) (h : Respaced b b') :
      Respaced (a ++ b) (a ++ gap ++ b')

/-- A text cut in front of one of its tokens has the tokens of both parts. -/
theorem exists_lex_of_cut {a b : String} {tokens : List Token} (h : lex (a ++ b) = .ok tokens)
    (htoken : ∃ t ∈ tokens, t.pos = a.length) :
    ∃ body, lex a = .ok (body ++ [⟨.endOfInput, a.length⟩]) ∧
      reading (a ++ b) = (reading b).map (body.map lexeme ++ ·) := by
  obtain ⟨t, ht, hpos⟩ := htoken
  obtain ⟨before, after, rfl⟩ := List.append_of_mem ht
  have hlexes : Lexes 0 (a.toList ++ b.toList) (before ++ t :: after) := by
    rw [← String.toList_append]
    exact lexFrom_eq_ok_iff.mp h
  have hcut := hlexes.cut (n := a.toList.length) (by rw [hpos, Nat.zero_add, String.length_toList])
  rw [List.take_left, List.drop_left, Nat.zero_add, String.length_toList, ← lexFrom_eq_ok_iff,
    ← lexFrom_eq_ok_iff] at hcut
  obtain ⟨hfront, hback⟩ := hcut
  refine ⟨before, hfront, ?_⟩
  rw [reading, h, reading_eq b a.length, hback]
  simp [Except.map, Except.mapError]

/-- **Blanks between tokens.** Other blanks, or more of them, change nothing of what is read. -/
theorem Respaced.reading_eq {source source' : String} (h : Respaced source source') :
    reading source = reading source' := by
  induction h with
  | refl source => rfl
  | @gap a b b' gap gap' tokens ha hgap hgap' h ih =>
    obtain ⟨body, rfl, -⟩ := exists_body_of_lex ha
    rw [reading_gap ha hgap, reading_gap ha hgap', ih]
  | @insert a b b' gap tokens hab htoken hgap h ih =>
    obtain ⟨body, ha, hread⟩ := exists_lex_of_cut hab htoken
    rw [hread, reading_gap ha hgap, ih]

/-- **Lexing at a separator.** Let a text have tokens, and let a blank or a semicolon stand between
it and a second text. If the second one has tokens too, the tokens of the whole are those of the
first without the marker of its end, the semicolon if there is one, and those of the second, further
right by what stands in front of it. If there is an error in the second text, it is the error of the
whole, further right. Hence other blanks between tokens, or more of them, do not change what the
tokens say. -/
theorem lex_append_separator :
    (∀ (a b : String) (c : Char) (tokens : List Token), lex a = .ok tokens →
      (Text.isBlank c ∨ c = ';') →
      tokens.getLast? = some ⟨.endOfInput, a.length⟩ ∧
      (∀ tokens', lex b = .ok tokens' → lex (a ++ String.singleton c ++ b) =
        .ok (tokens.dropLast ++ (if c = ';' then [⟨.symbol .semicolon, a.length⟩] else []) ++
          tokens'.map (shift (a.length + 1)))) ∧
      ∀ err, lex b = .error err →
        lex (a ++ String.singleton c ++ b) = .error (err.shift (a.length + 1))) ∧
    ∀ source source', Respaced source source' → reading source = reading source' := by
  refine ⟨fun a b c tokens ha hc => ?_, fun source source' => Respaced.reading_eq⟩
  rcases hc with hc | rfl
  · obtain ⟨body, rfl, -⟩ := exists_body_of_lex ha
    have hne : c ≠ ';' := by
      rintro rfl
      exact absurd hc (by decide)
    refine ⟨List.getLast?_concat, fun tokens' hb => ?_, fun err hb => ?_⟩
    · rw [lex_append_blank ha hc, hb, if_neg hne]
      simp [Except.map, Except.mapError]
    · rw [lex_append_blank ha hc, hb]
      rfl
  · obtain ⟨body, rfl, -, hjoin⟩ := exists_lex_append_semicolon ha
    have hsep : a ++ String.singleton ';' ++ b = a ++ ";" ++ b := rfl
    refine ⟨List.getLast?_concat, fun tokens' hb => ?_, fun err hb => ?_⟩
    · rw [hsep, hjoin, hb, if_pos rfl]
      simp [Except.map, Except.mapError]
    · rw [hsep, hjoin, hb]
      rfl

/-- At `s=`: in front of a literal, behind a semicolon and behind a blank; in front of a literal
with an unknown escape; and with blanks added in front of the literal and exchanged behind it. -/
theorem lex_append_separator_assign :
    lex ("s=" ++ String.singleton ';' ++ "\"a\"") = .ok [⟨.identifier "s", 0⟩,
      ⟨.symbol .assign, 1⟩, ⟨.symbol .semicolon, 2⟩, ⟨.string "a", 3⟩, ⟨.endOfInput, 6⟩] ∧
    lex ("s=" ++ String.singleton '\t' ++ "\"a\"") = .ok [⟨.identifier "s", 0⟩,
      ⟨.symbol .assign, 1⟩, ⟨.string "a", 3⟩, ⟨.endOfInput, 6⟩] ∧
    lex ("s=" ++ String.singleton ';' ++ "\"a\\q\"") = .error ⟨.unknownEscape 'q', 5⟩ ∧
    reading ("s=" ++ ("\"a\"" ++ " " ++ "+s")) =
      reading ("s=" ++ "\n" ++ ("\"a\"" ++ "\t " ++ "+s")) := by
  have hfirst : lex "s=" = .ok [⟨.identifier "s", 0⟩, ⟨.symbol .assign, 1⟩, ⟨.endOfInput, 2⟩] := by
    with_unfolding_all rfl
  have hsecond : lex "\"a\"" = .ok [⟨.string "a", 0⟩, ⟨.endOfInput, 3⟩] := by
    with_unfolding_all rfl
  have herror : lex "\"a\\q\"" = .error ⟨.unknownEscape 'q', 2⟩ := by with_unfolding_all rfl
  have hwhole : lex ("s=" ++ ("\"a\"" ++ " " ++ "+s")) = .ok [⟨.identifier "s", 0⟩,
      ⟨.symbol .assign, 1⟩, ⟨.string "a", 2⟩, ⟨.symbol .plus, 6⟩, ⟨.identifier "s", 7⟩,
      ⟨.endOfInput, 8⟩] := by with_unfolding_all rfl
  have hgap : IsGap " " ∧ IsGap "\n" ∧ IsGap "\t " := by decide
  obtain ⟨hjoin, hspacing⟩ := lex_append_separator
  refine ⟨?_, ?_, ?_, hspacing _ _ (.insert hwhole ⟨⟨.string "a", 2⟩, by simp, rfl⟩ hgap.2.1 ?_)⟩
  · exact (hjoin "s=" "\"a\"" ';' _ hfirst (.inr rfl)).2.1 _ hsecond
  · exact (hjoin "s=" "\"a\"" '\t' _ hfirst (.inl (by decide))).2.1 _ hsecond
  · exact (hjoin "s=" "\"a\\q\"" ';' _ hfirst (.inr rfl)).2.2 _ herror
  · exact .gap hsecond hgap.1 hgap.2.2 (.refl "+s")

end Token

end Reckon
